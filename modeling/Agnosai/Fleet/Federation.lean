import Agnosai.Order
import Agnosai.Support.KeyMap
import Agnosai.Support.Machine

/-!
# Fleet — Federation

The manager of a federation of clusters, after `fleet/federation.cyr`: heartbeats, the sweep that
demotes the silent ones, elections by term and the declaration of a coordinator.

Who coordinates is kept in three places: the elected id, this cluster's own role, and a role on
each known peer. They are written together by a declaration that is accepted, and by nothing else.
An election that starts clears the elected id and leaves the peers' roles; a peer that joins starts
as a follower whoever is elected (`roles_disagree`).
-/

namespace Agnosai.Fleet.Federation

open KeyMap Option Int64

/-- `AgnosaiFederationRole`. -/
inductive Role where
  | coordinator
  | follower
  | candidate
  deriving DecidableEq

/-- `AgnosaiClusterStatus`. -/
inductive ClusterStatus where
  | online
  | suspect
  | offline
  deriving DecidableEq

/-- `AgnosaiClusterInfoOff`. -/
structure ClusterInfo where
  id : Bytes
  endpoint : Bytes
  status : ClusterStatus
  role : Role
  nodeCount : Int64
  /-- Wall clock, in seconds. -/
  lastHeartbeat : Int64
  /-- Monotonic, in nanoseconds. -/
  lastHeartbeatInstant : Int64

/-- `AgnosaiElectionStateOff`. -/
structure ElectionState where
  term : Int64
  coordinator : Option Bytes
  termStarted : Int64

/-- `AgnosaiFederationConfigOff`, as far as the manager reads it. -/
structure Config where
  clusterId : Bytes
  suspectTimeoutMs : Int64
  offlineTimeoutMs : Int64

/-- `agnosai_federation_config_new`. -/
def Config.new (clusterId : Bytes) : Config := ⟨clusterId, 10000, 30000⟩

/-- `AgnosaiFederationManagerOff`. -/
structure Manager where
  config : Config
  role : Role
  clusters : KeyMap Bytes ClusterInfo
  election : ElectionState

/-- What a sweep at `now` leaves of a cluster. Offline is tested first. -/
def demote (config : Config) (now : Int64) (c : ClusterInfo) : ClusterInfo :=
  let elapsed := now - c.lastHeartbeatInstant
  if config.offlineTimeoutMs * 1000000 < elapsed ∧ c.status ≠ .offline then
    { c with status := .offline }
  else if config.suspectTimeoutMs * 1000000 < elapsed ∧ c.status = .online then
    { c with status := .suspect }
  else c

namespace Manager

/-- `agnosai_federation_manager_new`. -/
def new (config : Config) (now : Int64) : Manager := ⟨config, .follower, .empty, ⟨0, none, now⟩⟩

variable (fm : Manager)

/-- `agnosai_federation_heartbeat`. The role is written only where the cluster is new. -/
def heartbeat (clusterId endpoint : Bytes) (nodeCount now secs : Int64) : Manager :=
  let c := (fm.clusters.lookup clusterId).getD ⟨clusterId, endpoint, .online, .follower,
    nodeCount, secs, now⟩
  let c := { c with
    endpoint, nodeCount, status := .online, lastHeartbeat := secs, lastHeartbeatInstant := now }
  { fm with clusters := fm.clusters.set clusterId c }

/-- `agnosai_federation_check_liveness`. -/
def checkLiveness (now : Int64) : Manager :=
  { fm with clusters := fm.clusters.map (demote fm.config now) }

/-- `agnosai_federation_start_election`. The term wraps around, and the peers keep their roles. -/
def startElection (now : Int64) : Manager × Int64 :=
  let term := fm.election.term + 1
  ({ fm with election := ⟨term, none, now⟩, role := .candidate }, term)

/-- `agnosai_federation_declare_coordinator`. -/
def declareCoordinator (term : Int64) (coordinatorId : Bytes) : Manager × Bool :=
  if term < fm.election.term then (fm, false)
  else
    let clusters := fm.clusters.map fun c => { c with role := .follower }
    ({ fm with
        election := { fm.election with term, coordinator := some coordinatorId }
        role := if coordinatorId = fm.config.clusterId then .coordinator else .follower
        clusters :=
          match clusters.lookup coordinatorId with
          | none => clusters
          | some win => clusters.set coordinatorId { win with role := .coordinator } }, true)

/-- The lowest id of this cluster and its online peers. -/
def lowestId : Bytes :=
  fm.clusters.entries.foldl
    (fun best e => if e.2.status = .online ∧ orderStrCmp e.2.id best < 0 then e.2.id else best)
      fm.config.clusterId

/-- `agnosai_federation_elect_by_lowest_id`. -/
def electByLowestId (now : Int64) : Manager × Bytes :=
  let (fm, term) := fm.startElection now
  let best := fm.lowestId
  ((fm.declareCoordinator term best).1, best)

/-- `agnosai_federation_evict_offline`. -/
def evictOffline (ttlMs now : Int64) : Manager × List Bytes :=
  let evicted := (fm.clusters.entries.filter fun e =>
    e.2.status = .offline ∧ ttlMs * 1000000 < now - e.2.lastHeartbeatInstant).map fun e => e.2.id
  ({ fm with clusters := fm.clusters.eraseAll evicted }, evicted)

/-- A write to a known cluster, as `agnosai_federation_cluster` hands it out. -/
def onCluster (clusterId : Bytes) (f : ClusterInfo → ClusterInfo) : Manager :=
  match fm.clusters.lookup clusterId with
  | none => fm
  | some c => { fm with clusters := fm.clusters.set clusterId (f c) }

/-- `agnosai_cluster_info_set_status`. -/
def setStatus (clusterId : Bytes) (status : ClusterStatus) : Manager :=
  fm.onCluster clusterId fun c => { c with status }

/-- `agnosai_cluster_info_set_last_heartbeat_instant`. -/
def setLastHeartbeatInstant (clusterId : Bytes) (instant : Int64) : Manager :=
  fm.onCluster clusterId fun c => { c with lastHeartbeatInstant := instant }

end Manager

/-- A call that changes the manager, with what it reads of the clocks. -/
inductive Action where
  | heartbeat (clusterId endpoint : Bytes) (nodeCount now secs : Int64)
  | checkLiveness (now : Int64)
  | startElection (now : Int64)
  | declareCoordinator (term : Int64) (coordinatorId : Bytes)
  | electByLowestId (now : Int64)
  | evictOffline (ttlMs now : Int64)
  | setStatus (clusterId : Bytes) (status : ClusterStatus)
  | setLastHeartbeatInstant (clusterId : Bytes) (instant : Int64)

def Manager.call (fm : Manager) : Action → Manager
  | .heartbeat clusterId endpoint nodeCount now secs =>
    fm.heartbeat clusterId endpoint nodeCount now secs
  | .checkLiveness now => fm.checkLiveness now
  | .startElection now => (fm.startElection now).1
  | .declareCoordinator term coordinatorId => (fm.declareCoordinator term coordinatorId).1
  | .electByLowestId now => (fm.electByLowestId now).1
  | .evictOffline ttlMs now => (fm.evictOffline ttlMs now).1
  | .setStatus clusterId status => fm.setStatus clusterId status
  | .setLastHeartbeatInstant clusterId instant => fm.setLastHeartbeatInstant clusterId instant

/-- The manager's machine: every call is possible in every state. -/
def federation : Machine Manager Action where
  step fm a := some (fm.call a)

namespace Manager

variable {fm : Manager} {a : Action} {id w : Bytes}

/-- The id a call elects, if it elects one. -/
def declares (fm : Manager) : Action → Option Bytes
  | .declareCoordinator term coordinatorId =>
    if term < fm.election.term then none else some coordinatorId
  | .electByLowestId now => some (fm.startElection now).1.lowestId
  | _ => none

def peerRole (fm : Manager) (id : Bytes) : Option Role :=
  (fm.clusters.lookup id).map ClusterInfo.role

/-! ### What a call does -/

/-- A term not older is taken. -/
theorem declareCoordinator_of_le {term : Int64} (h : ¬ term < fm.election.term) :
    (fm.declareCoordinator term w).1.election.coordinator = some w ∧
      (fm.declareCoordinator term w).1.election.term = term ∧
      (fm.declareCoordinator term w).1.role =
        (if w = fm.config.clusterId then .coordinator else .follower) ∧
      ∀ id, (fm.declareCoordinator term w).1.peerRole id
        = (fm.peerRole id).map fun _ => if id = w then .coordinator else .follower := by
  rw [declareCoordinator, if_neg h]
  refine ⟨rfl, rfl, rfl, fun id => ?_⟩
  simp only [peerRole, lookup_map]
  cases hw : fm.clusters.lookup w with
  | none =>
    -- the winner is not known: nobody is promoted
    rw [map_none, lookup_map]
    by_cases hid : id = w
    · rw [hid, hw]
      rfl
    · simp only [hid, if_false, map_map]
      rfl
  | some =>
    rw [map_some, lookup_set]
    by_cases hid : id = w
    · rw [if_pos hid, hid, hw]
      simp
    · simp only [hid, if_false, lookup_map, map_map]
      rfl

/-- A call that elects `w` sets the three places by it, and the peers that are known stay the
same. -/
theorem call_of_declares (h : fm.declares a = some w) :
    (fm.call a).election.coordinator = some w ∧
      (fm.call a).role = (if w = fm.config.clusterId then .coordinator else .follower) ∧
      ∀ id, (fm.call a).peerRole id = (fm.peerRole id).map fun _ => if id = w then .coordinator
        else .follower := by
  cases a with
  | declareCoordinator =>
    simp only [declares] at h
    split at h
    · cases h
    next hle =>
      cases h
      obtain ⟨hcoord, -, hrole, hpeers⟩ := fm.declareCoordinator_of_le hle
      exact ⟨hcoord, hrole, hpeers⟩
  | electByLowestId now =>
    cases h
    obtain ⟨hcoord, -, hrole, hpeers⟩ :=
      (fm.startElection now).1.declareCoordinator_of_le Int64.lt_irrefl
    exact ⟨hcoord, hrole, hpeers⟩
  | heartbeat | checkLiveness | startElection | evictOffline | setStatus
  | setLastHeartbeatInstant => cases h

/-- A peer keeps its role, is evicted, or joins as a follower. -/
def PeerKept (fm fm' : Manager) (id : Bytes) : Prop :=
  fm'.peerRole id = fm.peerRole id ∨ fm'.peerRole id = none ∨
    fm.peerRole id = none ∧ fm'.peerRole id = some .follower

theorem heartbeat_peerKept (fm : Manager) (clusterId endpoint : Bytes) (nodeCount now secs : Int64)
    (id : Bytes) : PeerKept fm (fm.heartbeat clusterId endpoint nodeCount now secs) id := by
  by_cases hid : id = clusterId
  · subst hid
    cases hget : fm.clusters.lookup id with
    | none =>
      exact .inr (.inr ⟨by simp [peerRole, hget], by simp [peerRole, heartbeat, hget, lookup_set]⟩)
    | some => exact .inl (by simp [peerRole, heartbeat, hget, lookup_set])
  · exact .inl (by simp [peerRole, heartbeat, hid, lookup_set])

theorem demote_role (config : Config) (now : Int64) (c : ClusterInfo) :
    (demote config now c).role = c.role := by
  unfold demote
  dsimp only
  split
  · rfl
  · split <;> rfl

variable {f : ClusterInfo → ClusterInfo}

theorem onCluster_peerRole (hf : ∀ c, (f c).role = c.role) (clusterId id : Bytes) :
    (fm.onCluster clusterId f).peerRole id = fm.peerRole id := by
  unfold onCluster
  cases hget : fm.clusters.lookup clusterId with
  | none => rfl
  | some =>
    rw [peerRole, lookup_set]
    by_cases hid : id = clusterId
    · rw [if_pos hid, map_some, hf, hid, peerRole, hget, map_some]
    · rw [if_neg hid]
      rfl

theorem onCluster_election (clusterId : Bytes) :
    (fm.onCluster clusterId f).election = fm.election ∧ (fm.onCluster clusterId f).role = fm.role ∧
      (fm.onCluster clusterId f).config = fm.config := by
  unfold onCluster
  split <;> exact ⟨rfl, rfl, rfl⟩

/-- A call that elects nobody leaves the elected id and this cluster's role, or starts an election;
and no peer becomes coordinator. -/
theorem call_of_not_declares (h : fm.declares a = none) :
    ((fm.call a).election.coordinator = fm.election.coordinator ∧ (fm.call a).role = fm.role ∨
        (fm.call a).election.coordinator = none ∧ (fm.call a).role = .candidate) ∧
      ∀ id, PeerKept fm (fm.call a) id := by
  cases a with
  | heartbeat clusterId endpoint nodeCount now secs =>
    exact ⟨.inl ⟨rfl, rfl⟩, fm.heartbeat_peerKept clusterId endpoint nodeCount now secs⟩
  | checkLiveness now =>
    refine ⟨.inl ⟨rfl, rfl⟩, fun id => .inl ?_⟩
    rw [call, checkLiveness, peerRole, lookup_map, map_map]
    exact congrArg (fun f => (fm.clusters.lookup id).map f) (funext (demote_role fm.config now))
  | startElection => exact ⟨.inr ⟨rfl, rfl⟩, fun id => .inl rfl⟩
  | declareCoordinator term coordinatorId =>
    simp only [declares] at h
    split at h
    next hstale =>
      have hsame : fm.call (.declareCoordinator term coordinatorId) = fm := by
        rw [call, declareCoordinator, if_pos hstale]
      rw [hsame]
      exact ⟨.inl ⟨rfl, rfl⟩, fun id => .inl rfl⟩
    · cases h
  | electByLowestId => cases h
  | evictOffline =>
    refine ⟨.inl ⟨rfl, rfl⟩, fun id => ?_⟩
    simp only [PeerKept, call, evictOffline, peerRole, lookup_eraseAll]
    split
    · exact .inr (.inl rfl)
    · exact .inl rfl
  | setStatus clusterId status =>
    obtain ⟨helection, hrole, -⟩ := fm.onCluster_election clusterId
    refine ⟨.inl ⟨congrArg _ helection, hrole⟩, fun id => .inl ?_⟩
    exact onCluster_peerRole (f := fun c => { c with status }) (fun _ => rfl) clusterId id
  | setLastHeartbeatInstant clusterId instant =>
    obtain ⟨helection, hrole, -⟩ :=
      fm.onCluster_election clusterId
    refine ⟨.inl ⟨congrArg _ helection, hrole⟩, fun id => .inl ?_⟩
    exact onCluster_peerRole (f := fun c => { c with lastHeartbeatInstant := instant })
      (fun _ => rfl) clusterId id

theorem declareCoordinator_config (fm : Manager) (term : Int64) (w : Bytes) :
    (fm.declareCoordinator term w).1.config = fm.config := by
  rw [declareCoordinator]
  split <;> rfl

theorem call_config : (fm.call a).config = fm.config := by
  cases a with
  | declareCoordinator term coordinatorId => exact fm.declareCoordinator_config term coordinatorId
  | electByLowestId now => exact (fm.startElection now).1.declareCoordinator_config _ _
  | setStatus clusterId | setLastHeartbeatInstant clusterId =>
    exact (fm.onCluster_election clusterId).2.2
  | heartbeat | checkLiveness | startElection | evictOffline => rfl

/-! ### The term -/

/-- The call starts an election at the largest term. -/
def Wraps (fm : Manager) : Action → Prop
  | .startElection _ | .electByLowestId _ => fm.election.term = maxValue
  | _ => False

theorem le_succ_of_ne_max {n : Int64} (h : n ≠ maxValue) : n ≤ n + 1 := by
  have hone : (1 : Int64).toInt = 1 := rfl
  have hmax : maxValue.toInt = 2 ^ 63 - 1 := rfl
  have hlow := n.le_toInt
  have hne : n.toInt ≠ maxValue.toInt := fun heq => h (toInt_inj.1 heq)
  have hlt := n.toInt_lt
  rw [le_iff_toInt_le, toInt_add, hone, Int.bmod_eq_of_le (by omega) (by omega)]
  omega

/-- A term that does not wrap never falls. -/
theorem term_le_call (h : ¬ fm.Wraps a) : fm.election.term ≤ (fm.call a).election.term := by
  cases a with
  | startElection => exact le_succ_of_ne_max h
  | electByLowestId now =>
    have hterm := ((fm.startElection now).1.declareCoordinator_of_le
      (w := (fm.startElection now).1.lowestId) Int64.lt_irrefl).2.1
    exact hterm.symm ▸ le_succ_of_ne_max h
  | declareCoordinator term =>
    rw [call]
    by_cases hstale : term < fm.election.term
    · rw [declareCoordinator, if_pos hstale]
      exact Int64.le_refl _
    · rw [(fm.declareCoordinator_of_le hstale).2.1]
      exact Int64.not_lt.1 hstale
  | setStatus clusterId =>
    rw [call, setStatus, (fm.onCluster_election clusterId).1]
    exact Int64.le_refl _
  | setLastHeartbeatInstant clusterId =>
    rw [call, setLastHeartbeatInstant, (fm.onCluster_election clusterId).1]
    exact Int64.le_refl _
  | heartbeat | checkLiveness | evictOffline => exact Int64.le_refl _

/-! ### The roles -/

/-- This cluster coordinates exactly when it is elected, and a peer that coordinates has no other
elected beside it. -/
structure Agreed (config : Config) (fm : Manager) : Prop where
  same : fm.config = config
  own : fm.role = .coordinator ↔ fm.election.coordinator = some config.clusterId
  peer : ∀ id, fm.peerRole id = some .coordinator → ∀ w, fm.election.coordinator = some w → w = id

variable {config : Config}

theorem Agreed.new (now : Int64) : Agreed config (.new config now) where
  same := rfl
  own := by simp [Manager.new]
  peer := nofun

/-- A call keeps the roles agreed. -/
theorem Agreed.call (h : Agreed config fm) (a : Action) : Agreed config (fm.call a) := by
  have hconfig : (fm.call a).config = config := call_config.trans h.same
  cases hdecl : fm.declares a with
  | some w =>
    obtain ⟨hcoord, hrole, hpeers⟩ := call_of_declares hdecl
    refine ⟨hconfig, ?_, fun id hid w' hw' => ?_⟩
    · rw [hrole, hcoord, h.same]
      by_cases hw : w = config.clusterId <;> simp [hw]
    · obtain rfl : w = w' := some.inj (hcoord.symm.trans hw')
      rw [hpeers] at hid
      by_contra hne
      simp [Ne.symm hne] at hid
  | none =>
    obtain ⟨hself, hpeers⟩ := call_of_not_declares hdecl
    refine ⟨hconfig, ?_, fun id hid w hw => ?_⟩
    · obtain ⟨hcoord, hrole⟩ | ⟨hcoord, hrole⟩ := hself
      · rw [hcoord, hrole, h.own]
      · simp [hcoord, hrole]
    · obtain ⟨hcoord, -⟩ | ⟨hcoord, -⟩ := hself
      · rcases hpeers id with hsame | hgone | ⟨-, hjoined⟩
        · exact h.peer id (hsame ▸ hid) w (hcoord ▸ hw)
        · rw [hgone] at hid
          cases hid
        · rw [hjoined] at hid
          cases hid
      · rw [hcoord] at hw
        cases hw

/-- The peer is known and no other is elected. -/
def Unrivalled (id : Bytes) (fm : Manager) : Prop :=
  (fm.clusters.lookup id).isSome ∧ ∀ w, fm.election.coordinator = some w → w = id

theorem isSome_peerRole : (fm.peerRole id).isSome = (fm.clusters.lookup id).isSome := isSome_map ..

/-- A peer coordinates after a call exactly when it is then unrivalled, and coordinated before or is
elected by the call. -/
theorem peerRole_call (h : Agreed config fm) :
    (fm.call a).peerRole id = some .coordinator ↔
      (fm.call a).Unrivalled id ∧
        (fm.peerRole id = some .coordinator ∨ fm.declares a = some id) := by
  rw [Unrivalled, ← isSome_peerRole]
  cases hdecl : fm.declares a with
  | some w =>
    obtain ⟨hcoord, -, hpeers⟩ := call_of_declares hdecl
    rw [hcoord, hpeers]
    constructor
    · intro hid
      obtain ⟨r, hr, hrole⟩ := map_eq_some_iff.1 hid
      have hw : id = w := by
        by_contra hne
        simp [hne] at hrole
      exact ⟨⟨by rw [hr]; rfl, fun w' hw' => by cases hw'; exact hw.symm⟩,
        .inr (congrArg some hw.symm)⟩
    · rintro ⟨⟨hknown, hrival⟩, -⟩
      obtain rfl := hrival w rfl
      rw [isSome_map] at hknown
      obtain ⟨r, hr⟩ := isSome_iff_exists.1 hknown
      simp [hr]
  | none =>
    obtain ⟨-, hpeers⟩ := call_of_not_declares hdecl
    have hafter := (h.call a).peer id
    constructor
    · intro hid
      refine ⟨⟨by rw [hid]; rfl, hafter hid⟩, .inl ?_⟩
      rcases hpeers id with hsame | hgone | ⟨-, hjoined⟩
      · exact hsame.symm.trans hid
      · rw [hgone] at hid
        cases hid
      · rw [hjoined] at hid
        cases hid
    · rintro ⟨⟨hknown, -⟩, hrole | helected⟩
      · rcases hpeers id with hsame | hgone | ⟨hnew, -⟩
        · exact hsame.trans hrole
        · rw [hgone] at hknown
          cases hknown
        · rw [hnew] at hrole
          cases hrole
      · cases helected

end Manager

open Manager in
/-- **Who coordinates**, after every history of one manager. -/
theorem roles_after (config : Config) (start : Int64) (as : List Action) (fm : Manager)
    (h : federation.exec (.new config start) as = some fm) :
    (∀ bs fm', federation.exec fm bs = some fm' → federation.Along (fun s a => ¬ s.Wraps a) fm bs →
        fm.election.term ≤ fm'.election.term) ∧
      (fm.role = .coordinator ↔ fm.election.coordinator = some config.clusterId) ∧
      (∀ id c, fm.clusters.lookup id = some c →
        (c.role = .coordinator ↔
          federation.Since (fun s a => s.declares a = some id) (Unrivalled id)
            (.new config start) as)) ∧
      ∀ id c w, fm.clusters.lookup id = some c → fm.election.coordinator = some w →
        c.role = .coordinator → id = w := by
  have hagreed : ∀ as fm, federation.exec (.new config start) as = some fm → Agreed config fm := by
    intro as fm h
    refine federation.exec_invariant (.new start) ?_ h
    rintro s a s' hs ⟨⟩
    exact hs.call a
  have hpeer : ∀ id c, fm.clusters.lookup id = some c →
      (fm.peerRole id = some .coordinator ↔ c.role = .coordinator) := by
    intro id c hc
    rw [peerRole, hc, map_some, some_inj]
  refine ⟨fun bs fm' hbs hwraps => ?_, (hagreed as fm h).own, fun id c hc => ?_,
    fun id c w hc hw hrole => ?_⟩
  · refine federation.exec_rule (I := fun _ s => fm.election.term ≤ s.election.term)
      (Int64.le_refl _) ?_ hwraps hbs
    rintro - s a s' hle hnot ⟨⟩
    exact Int64.le_trans hle (term_le_call hnot)
  · rw [← hpeer id c hc]
    refine federation.since_rule (T := fun s => s.peerRole id = some .coordinator)
      (by rintro ⟨⟩) ?_ h
    rintro as s a s' hrun ⟨⟩
    exact peerRole_call (hagreed as s hrun)
  · exact ((hagreed as fm h).peer id ((hpeer id c hc).2 hrole) w hw).symm

/-- Cluster `a`, with nothing known. -/
def alone : Manager := .new (.new (ascii "a")) 0

/-- A heartbeat of cluster `b`. -/
def beat : Action := .heartbeat (ascii "b") (ascii "tcp://b") 1 0 0

theorem roles_after_beat :
    ∃ fm, federation.exec alone [beat, .declareCoordinator 1 (ascii "b")] = some fm ∧
    fm.peerRole (ascii "b") = some .coordinator ∧
    (fm.role = .coordinator ↔ fm.election.coordinator = some (ascii "a")) :=
  ⟨_, rfl, by decide +kernel,
    (roles_after (.new (ascii "a")) 0 [beat, .declareCoordinator 1 (ascii "b")] _ rfl).2.1⟩

/-- **The places can disagree.** An election that starts leaves the coordinator of the last one in
its role, a peer elected before it is known joins as a follower, and the term after the largest is
the smallest. -/
theorem roles_disagree :
    (∃ fm, federation.exec alone [beat, .declareCoordinator 1 (ascii "b"), .startElection 0] =
      some fm ∧
        fm.peerRole (ascii "b") = some .coordinator ∧ fm.election.coordinator = none) ∧
      (∃ fm, federation.exec alone [.declareCoordinator 1 (ascii "b"), beat] = some fm ∧
        fm.peerRole (ascii "b") = some .follower ∧ fm.election.coordinator = some (ascii "b")) ∧
      ∃ fm fm', federation.exec alone [.declareCoordinator maxValue (ascii "b")] = some fm ∧
        federation.exec fm [.startElection 0] = some fm' ∧ fm'.election.term < fm.election.term :=
  ⟨⟨_, rfl, by decide +kernel, rfl⟩, ⟨_, rfl, by decide +kernel, rfl⟩,
    ⟨_, _, rfl, rfl, by decide +kernel⟩⟩

end Agnosai.Fleet.Federation
