import Agnosai.Server.Subscriptions.Definitions

/-!
# Server — Subscriptions — Closed

A subscription that is open is on the list of the sender the bus has for its crew (`Attended`), so
the removal at the end of a run closes it. That rests on what the code does not see to (`Calm`): a
run that ends in a scheduling error does not remove the sender; a sender may be removed between the
lookup and the joining; and a subscription that is made after the end makes a sender that nobody
removes.
-/

namespace Agnosai.Subscriptions

open Sse Function KeyMap List

variable {s s' : Hub} {act : HubAct} {crew id : String} {b : Bus}

/-! ### The bus -/

/-- Senders are told apart. -/
structure Distinct (b : Bus) : Prop where
  below : ∀ crew tx, b.channels.lookup crew = some tx → tx < b.next
  inj : ∀ crew crew' tx, b.channels.lookup crew = some tx → b.channels.lookup crew' = some tx →
    crew = crew'

/-- The crew has a sender with no subscriptions. -/
def Orphan (b : Bus) (crew : String) : Prop :=
  ∃ tx, b.channels.lookup crew = some tx ∧ b.subs tx = []

/-- Looking the crew's sender up makes one, and the bus is at its cap. -/
def Crowded (b : Bus) (crew : String) : Prop :=
  b.channels.lookup crew = none ∧ maxEventChannels ≤ b.channels.size

/-- `b'` has the senders of `b`, with what is on their lists, but for orphans that are `gone`. -/
def Spared (gone : String → Prop) (b b' : Bus) : Prop :=
  ∀ id tx, b.channels.lookup id = some tx →
    b'.channels.lookup id = some tx ∧ b'.subs tx = b.subs tx ∨ gone id ∧ b.subs tx = []

variable {sub tx r : Nat}

theorem lookup_cleanup :
    b.cleanup.channels.lookup id = some tx ↔ b.channels.lookup id = some tx ∧ b.subs tx ≠ [] := by
  rw [Bus.cleanup, lookup_eraseAll, Option.ite_none_left_eq_some, and_comm]
  refine and_congr_right fun hl => not_congr ?_
  simp only [List.mem_map, List.mem_filter, List.isEmpty_iff]
  constructor
  · rintro ⟨⟨id', tx'⟩, ⟨he, hempty⟩, rfl⟩
    rw [lookup_eq_some.2 he] at hl
    cases hl
    exact hempty
  · exact fun hempty => ⟨(id, tx), ⟨lookup_eq_some.1 hl, hempty⟩, rfl⟩

theorem spared_cleanup : Spared (Orphan b) b b.cleanup := by
  intro id tx hl
  by_cases hempty : b.subs tx = []
  · exact .inr ⟨⟨tx, hl, hempty⟩, hempty⟩
  · exact .inl ⟨lookup_cleanup.2 ⟨hl, hempty⟩, rfl⟩

theorem Distinct.cleanup (h : Distinct b) : Distinct b.cleanup where
  below crew tx hl := h.below crew tx (lookup_cleanup.1 hl).1
  inj crew crew' tx hl hl' := h.inj crew crew' tx (lookup_cleanup.1 hl).1 (lookup_cleanup.1 hl').1

/-- What is among the channels that a new one joins was there. -/
theorem lookup_room (hl : b.room.channels.lookup id = some tx) :
    b.channels.lookup id = some tx := by
  unfold Bus.room at hl
  split at hl
  · exact (lookup_cleanup.1 hl).1
  · exact hl

/-- The lookup of a sender finds it, or makes it. -/
theorem sender_cases (b : Bus) (crew : String) :
    (∃ tx, b.channels.lookup crew = some tx ∧ b.sender crew = (b, tx)) ∨
      b.channels.lookup crew = none ∧ b.sender crew =
        ({ channels := b.room.channels.set crew b.next
           subs := update b.subs b.next []
           next := b.next + 1 }, b.next) := by
  unfold Bus.sender
  split
  · exact .inl ⟨_, ‹_›, rfl⟩
  · exact .inr ⟨‹_›, rfl⟩

theorem lookup_sender : (b.sender crew).1.channels.lookup crew = some (b.sender crew).2 := by
  obtain ⟨tx, hl, heq⟩ | ⟨-, heq⟩ := sender_cases b crew
  · rw [heq]
    exact hl
  · rw [heq, lookup_set, if_pos rfl]

/-- A new sender is another one. -/
theorem Distinct.sender (h : Distinct b) : Distinct (b.sender crew).1 := by
  obtain ⟨tx, -, heq⟩ | ⟨-, heq⟩ := sender_cases b crew
  · rwa [heq]
  rw [heq]
  have hcases : ∀ id tx, (b.room.channels.set crew b.next).lookup id = some tx →
      id = crew ∧ b.next = tx ∨ b.channels.lookup id = some tx := fun id tx hl =>
    (lookup_set_eq_some.1 hl).imp_right fun hold => lookup_room hold.2
  refine ⟨fun id tx hl => ?_, fun id id' tx hl hl' => ?_⟩
  · obtain ⟨-, rfl⟩ | hold := hcases id tx hl
    · exact Nat.lt_succ_self _
    · exact Nat.lt_succ_of_lt (h.below id tx hold)
  · obtain ⟨rfl, rfl⟩ | hl := hcases id tx hl
    · obtain ⟨rfl, -⟩ | hl' := hcases id' _ hl'
      · rfl
      · exact absurd (h.below id' _ hl') (Nat.lt_irrefl _)
    · obtain ⟨-, rfl⟩ | hl' := hcases id' tx hl'
      · exact absurd (h.below id _ hl) (Nat.lt_irrefl _)
      · exact h.inj id id' tx hl hl'

theorem Distinct.spared_sender (h : Distinct b) :
    Spared (fun id => Crowded b crew ∧ Orphan b id) b (b.sender crew).1 := by
  intro id tx hl
  obtain ⟨_, -, heq⟩ | ⟨hnone, heq⟩ := sender_cases b crew
  · rw [heq]
    exact .inl ⟨hl, rfl⟩
  have hne : id ≠ crew := fun hid => by simp [hid, hnone] at hl
  rw [heq]
  simp only [lookup_set, if_neg hne, update_of_ne (Nat.ne_of_lt (h.below id tx hl))]
  unfold Bus.room
  split
  next hcap =>
    obtain ⟨hkept, -⟩ | ⟨horphan, hempty⟩ := spared_cleanup id tx hl
    · exact .inl ⟨hkept, trivial⟩
    · exact .inr ⟨⟨⟨hnone, hcap⟩, horphan⟩, hempty⟩
  · exact .inl ⟨hl, trivial⟩

theorem Distinct.drop (h : Distinct b) : Distinct (b.drop crew tx) := by
  have hold : ∀ {id tx'}, (b.channels.erase crew).lookup id = some tx' →
      b.channels.lookup id = some tx' :=
    fun hl => (lookup_erase_eq_some.1 hl).2
  exact ⟨fun id tx' hl => h.below id tx' (hold hl),
    fun id id' tx' hl hl' => h.inj id id' tx' (hold hl) (hold hl')⟩

theorem mem_drop {tx' : Nat} : sub ∈ (b.drop crew tx).subs tx' ↔ tx' ≠ tx ∧ sub ∈ b.subs tx' := by
  by_cases htx : tx' = tx
  · simp [Bus.drop, htx]
  · simp [Bus.drop, htx, update_of_ne]

theorem mem_add {tx' sub' : Nat} :
    sub' ∈ (b.add tx sub).subs tx' ↔ sub' ∈ b.subs tx' ∨ tx' = tx ∧ sub' = sub := by
  by_cases htx : tx' = tx
  · simp [Bus.add, htx]
  · simp [Bus.add, htx, update_of_ne]

/-! ### What is kept -/

/-- Every run of the crew is over, and there was one. -/
def Hub.Over (s : Hub) (crew : String) : Prop :=
  (∃ r, s.runs r = some ⟨crew, true⟩) ∧ ∀ r, s.runs r ≠ some ⟨crew, false⟩

/-- Nothing of the subscription is left to do or to close. -/
def Stage.Quiet (closed : Nat → Bool) : Stage → Prop
  | .looked _ | .taken _ _ => False
  | .handed sub | .dropped sub => closed sub = true
  | .reopened _ | .givenBack => True

/-- A channel is one subscription's, or on the idle stack. -/
structure Owned (s : Hub) : Prop where
  inj : ∀ k k' holder holder' sub, s.holders k = some holder → s.holders k' = some holder' →
    holder.stage.sub = some sub → holder'.stage.sub = some sub → k = k'
  minted : ∀ k holder sub, s.holders k = some holder → holder.stage.sub = some sub → sub < s.minted
  shelf : ∀ sub ∈ s.idle, sub < s.minted ∧ ∀ k holder, s.holders k = some holder →
    holder.stage.sub ≠ some sub
  nodup : s.idle.Nodup

/-- What is open is on the list of its crew's sender, and what joins one joins that. -/
structure Attended (s : Hub) : Prop where
  distinct : Distinct s.bus
  owned : Owned s
  joining : ∀ k crew stage tx, s.holders k = some ⟨crew, stage⟩ → stage.joining = some tx →
    s.bus.channels.lookup crew = some tx
  listed : ∀ k crew sub, s.holders k = some ⟨crew, .handed sub⟩ → s.closed sub = false →
    ∃ tx, s.bus.channels.lookup crew = some tx ∧ sub ∈ s.bus.subs tx
  quiet : ∀ crew, s.Over crew → ∀ k stage, s.holders k = some ⟨crew, stage⟩ → stage.Quiet s.closed

theorem Hub.Over.of_update {run : BusRun} (h : s'.Over id)
    (hruns : s'.runs = update s.runs r (some run)) (hnew : run ≠ ⟨id, true⟩)
    (hold : s.runs r ≠ some ⟨id, false⟩) : s.Over id := by
  obtain ⟨⟨r', hr'⟩, hnone⟩ := h
  rw [hruns] at hr' hnone
  refine ⟨⟨r', ?_⟩, fun r'' hr'' => hnone r'' (update_eq_some.2 (.inr ⟨?_, hr''⟩))⟩
  · obtain ⟨-, heq⟩ | ⟨-, hr'⟩ := update_eq_some.1 hr'
    · exact absurd heq hnew
    · exact hr'
  · rintro rfl
    exact hold hr''

theorem attended_start : Attended {} where
  distinct := ⟨nofun, nofun⟩
  owned := ⟨nofun, nofun, nofun, nodup_nil⟩
  joining := nofun
  listed := nofun
  quiet := nofun

theorem Stage.Quiet.mono {closed closed' : Nat → Bool}
    (hle : ∀ sub, closed sub = true → closed' sub = true)
    {stage : Stage} (h : stage.Quiet closed) : stage.Quiet closed' := by
  cases stage with
  | looked | taken => exact h
  | handed sub | dropped sub => exact hle sub h
  | reopened | givenBack => trivial

/-- Orphans may go whose crew nobody is about to join. -/
theorem Attended.rebus (h : Attended s) {gone : String → Prop} (hdistinct : Distinct b)
    (hspared : Spared gone s.bus b)
    (hjoin : ∀ crew, gone crew → ∀ k stage, s.holders k = some ⟨crew, stage⟩ →
      stage.joining = none) :
    Attended { s with bus := b } := by
  refine ⟨hdistinct, ⟨h.owned.inj, h.owned.minted, h.owned.shelf, h.owned.nodup⟩, ?_, ?_, h.quiet⟩
  · intro k crew stage tx hk htx
    obtain ⟨hkept, -⟩ | ⟨hgone, -⟩ := hspared crew tx (h.joining k crew stage tx hk htx)
    · exact hkept
    · rw [hjoin crew hgone k stage hk] at htx
      cases htx
  · intro k crew sub hk hopen
    obtain ⟨tx, hl, hmem⟩ := h.listed k crew sub hk hopen
    obtain ⟨hkept, hsubs⟩ | ⟨-, hempty⟩ := hspared crew tx hl
    · exact ⟨tx, hkept, hsubs ▸ hmem⟩
    · rw [hempty] at hmem
      cases hmem

theorem Hub.remove_cases (s : Hub) (crew : String) :
    (s.bus.channels.lookup crew = none ∧ s.remove crew = s) ∨
      ∃ tx, s.bus.channels.lookup crew = some tx ∧ s.remove crew =
        { s with
          closed := fun sub => s.closed sub || decide (sub ∈ s.bus.subs tx)
          bus := s.bus.drop crew tx } := by
  unfold Hub.remove
  split
  · exact .inl ⟨‹_›, rfl⟩
  · exact .inr ⟨_, ‹_›, rfl⟩

/-- A sender may be removed that nobody is about to join. -/
theorem Attended.remove (h : Attended s) (hjoin : ∀ k stage, s.holders k = some ⟨crew, stage⟩ →
    stage.joining = none) : Attended (s.remove crew) := by
  obtain ⟨-, heq⟩ | ⟨tx, hl, heq⟩ := s.remove_cases crew
  · rwa [heq]
  rw [heq]
  have hkept : ∀ id tx', id ≠ crew → s.bus.channels.lookup id = some tx' →
      (s.bus.drop crew tx).channels.lookup id = some tx' ∧
        (s.bus.drop crew tx).subs tx' = s.bus.subs tx' := by
    intro id tx' hne hl'
    have htx : tx' ≠ tx := fun htx => hne (h.distinct.inj id crew tx (htx ▸ hl') hl)
    exact ⟨(lookup_erase_of_ne _ hne).trans hl', update_of_ne htx ..⟩
  refine ⟨h.distinct.drop, ⟨h.owned.inj, h.owned.minted, h.owned.shelf, h.owned.nodup⟩, ?_, ?_, ?_⟩
  · intro k id stage tx' hk htx'
    have hne : id ≠ crew := by
      rintro rfl
      simp [hjoin k stage hk] at htx'
    exact (hkept id tx' hne (h.joining k id stage tx' hk htx')).1
  · intro k id sub hk hopen
    obtain ⟨hopen, hnot⟩ := Bool.or_eq_false_iff.1 hopen
    obtain ⟨tx', hl', hmem⟩ := h.listed k id sub hk hopen
    have hne : id ≠ crew := by
      rintro rfl
      obtain rfl : tx = tx' := Option.some_inj.1 (hl.symm.trans hl')
      exact of_decide_eq_false hnot hmem
    obtain ⟨hl', hsubs⟩ := hkept id tx' hne hl'
    exact ⟨tx', hl', hsubs ▸ hmem⟩
  · intro id hover k stage hk
    exact (h.quiet id hover k stage hk).mono fun sub hclosed => by simp [hclosed]

/-- The removal closes what is open. -/
theorem Attended.closed_remove (h : Attended s) {k : Nat}
    (hk : s.holders k = some ⟨crew, .handed sub⟩) : (s.remove crew).closed sub = true := by
  cases hclosed : s.closed sub with
  | true =>
    obtain ⟨-, heq⟩ | ⟨tx, -, heq⟩ := s.remove_cases crew <;> simp [heq, hclosed]
  | false =>
    obtain ⟨tx, hl, hmem⟩ := h.listed k crew sub hk hclosed
    obtain ⟨hnone, -⟩ | ⟨tx', hl', heq⟩ := s.remove_cases crew
    · cases hnone.symm.trans hl
    · cases hl.symm.trans hl'
      simp [heq, hmem]

/-- A run may be over once nothing of its crew's subscriptions is left. -/
theorem Attended.endRun (h : Attended s) (hrun : s.runs r = some { crew })
    (hquiet : ∀ k stage, s.holders k = some ⟨crew, stage⟩ → stage.Quiet s.closed) :
    Attended (s.endRun r crew) := by
  refine ⟨h.distinct, ⟨h.owned.inj, h.owned.minted, h.owned.shelf, h.owned.nodup⟩, h.joining,
    h.listed, ?_⟩
  intro id hover
  by_cases heq : id = crew
  · rw [heq]
    exact hquiet
  · exact h.quiet id (hover.of_update rfl (by simp [Ne.symm heq]) (by simp [hrun, Ne.symm heq]))

section Moves

variable {k : Nat} {stage stage' : Stage}

/-- What a table has after one entry of it was set. -/
theorem update_some_cases {α : Type} {f g : Nat → Option α} {x : α}
    (h : g = update f k (some x)) (k' : Nat) (y : α) (hk' : g k' = some y) :
    k' = k ∧ y = x ∨ k' ≠ k ∧ f k' = some y := by
  rw [h, update_eq_some] at hk'
  exact hk'.imp_left fun hnew => ⟨hnew.1, hnew.2.symm⟩

namespace Owned

variable (h : Owned s)
include h

/-- A subscription goes to a stage with a channel that no other has. -/
theorem update (hholders : s'.holders = update s.holders k (some ⟨crew, stage'⟩))
    (hminted : s.minted ≤ s'.minted) (hnodup : s'.idle.Nodup)
    (hnew : ∀ sub, stage'.sub = some sub → sub < s'.minted ∧ sub ∉ s'.idle ∧
      ∀ k' holder, k' ≠ k → s.holders k' = some holder → holder.stage.sub ≠ some sub)
    (hshelf : ∀ sub ∈ s'.idle, sub < s'.minted ∧
      ∀ k' holder, k' ≠ k → s.holders k' = some holder → holder.stage.sub ≠
        some sub) : Owned s' := by
  have hcases := update_some_cases hholders
  refine ⟨?_, ?_, ?_, hnodup⟩
  · intro k₁ k₂ holder₁ holder₂ sub h₁ h₂ hsub₁ hsub₂
    obtain ⟨heq₁, rfl⟩ | ⟨hne₁, hk₁⟩ := hcases k₁ holder₁ h₁
    · obtain ⟨heq₂, -⟩ | ⟨hne₂, hk₂⟩ := hcases k₂ holder₂ h₂
      · rw [heq₁, heq₂]
      · exact absurd hsub₂ ((hnew sub hsub₁).2.2 k₂ holder₂ hne₂ hk₂)
    · obtain ⟨-, rfl⟩ | ⟨-, hk₂⟩ := hcases k₂ holder₂ h₂
      · exact absurd hsub₁ ((hnew sub hsub₂).2.2 k₁ holder₁ hne₁ hk₁)
      · exact h.inj k₁ k₂ holder₁ holder₂ sub hk₁ hk₂ hsub₁ hsub₂
  · intro k₁ holder₁ sub h₁ hsub₁
    obtain ⟨-, rfl⟩ | ⟨-, hk₁⟩ := hcases k₁ holder₁ h₁
    · exact (hnew sub hsub₁).1
    · exact Nat.lt_of_lt_of_le (h.minted k₁ holder₁ sub hk₁ hsub₁) hminted
  · intro sub hmem
    obtain ⟨hlt, hothers⟩ := hshelf sub hmem
    refine ⟨hlt, fun k₁ holder₁ h₁ hsub₁ => ?_⟩
    obtain ⟨-, rfl⟩ | ⟨hne₁, hk₁⟩ := hcases k₁ holder₁ h₁
    · exact (hnew sub hsub₁).2.1 hmem
    · exact hothers k₁ holder₁ hne₁ hk₁ hsub₁

/-- No other subscription has the channel of this one. -/
theorem others (hk : s.holders k = some ⟨crew, stage⟩)
    (hsub : stage.sub = some sub) (k' : Nat) (holder : Holder) (hne : k' ≠ k)
    (hk' : s.holders k' = some holder) : holder.stage.sub ≠ some sub :=
  fun hsub' => hne (h.inj k' k holder ⟨crew, stage⟩ sub hk' hk hsub' hsub)

theorem sub_ne (hk : s.holders k = some ⟨crew, stage⟩) {sub' k' : Nat} {holder : Holder}
    (hsub : stage.sub = some sub) (hne : k' ≠ k) (hk' : s.holders k' = some holder)
    (hsub' : holder.stage.sub = some sub') : sub' ≠ sub := by
  rintro rfl
  exact h.others hk hsub k' holder hne hk' hsub'

/-- Nothing is on the stack that another subscription has. -/
theorem shelf_others (k : Nat) (sub : Nat) (hmem : sub ∈ s.idle) :
    sub < s.minted ∧ ∀ k' holder, k' ≠ k → s.holders k' = some holder →
      holder.stage.sub ≠ some sub :=
  ⟨(h.shelf sub hmem).1, fun k' holder _ hk' => (h.shelf sub hmem).2 k' holder hk'⟩

/-- A subscription keeps its channel. -/
theorem keep (hk : s.holders k = some ⟨crew, stage⟩)
    (hholders : s'.holders = Function.update s.holders k (some ⟨crew, stage'⟩))
    (hminted : s'.minted = s.minted) (hidle : s'.idle = s.idle) (hsub : stage'.sub = stage.sub) :
    Owned s' := by
  refine h.update hholders (Nat.le_of_eq hminted.symm) (hidle ▸ h.nodup) (fun sub hnew => ?_)
    fun sub hmem => ?_
  · rw [hsub] at hnew
    rw [hminted, hidle]
    refine ⟨h.minted k _ sub hk hnew, fun hmem => ?_, h.others hk hnew⟩
    exact (h.shelf sub hmem).2 k _ hk hnew
  · rw [hidle] at hmem
    rw [hminted]
    exact h.shelf_others k sub hmem

theorem look (k : Nat) (crew : String) (tx : Nat) : Owned (s.setStage k crew (.looked tx)) :=
  h.update rfl (Nat.le_refl _) h.nodup nofun (h.shelf_others k)

theorem fresh (k' : Nat) (holder : Holder) (hk' : s.holders k' = some holder) :
    holder.stage.sub ≠ some s.minted :=
  fun hsub => Nat.lt_irrefl _ (h.minted k' holder _ hk' hsub)

theorem mintFor (k : Nat) (crew : String) (tx : Nat) : Owned (s.mintFor k crew tx) := by
  refine h.update rfl (Nat.le_succ _) h.nodup ?_ fun sub hmem => ?_
  · rintro sub ⟨⟩
    exact ⟨Nat.lt_succ_self _, fun hmem => Nat.lt_irrefl _ (h.shelf _ hmem).1,
      fun k' holder _ hk' => h.fresh k' holder hk'⟩
  · exact ⟨Nat.lt_succ_of_lt (h.shelf sub hmem).1, (h.shelf_others k sub hmem).2⟩

theorem take (k : Nat) (crew : String) (tx : Nat) {rest : List Nat}
    (hidle : s.idle = sub :: rest) :
    Owned ({ s with idle := rest }.setStage k crew (.taken tx sub)) := by
  have hnodup := h.nodup
  have hshelf := h.shelf_others k
  rw [hidle] at hnodup hshelf
  refine h.update rfl (Nat.le_refl _) (nodup_cons.1 hnodup).2 ?_ fun sub' hmem => ?_
  · rintro sub' ⟨⟩
    obtain ⟨hlt, hothers⟩ := hshelf sub mem_cons_self
    exact ⟨hlt, (nodup_cons.1 hnodup).1, hothers⟩
  · exact hshelf sub' (mem_cons_of_mem sub hmem)

theorem shelve (hk : s.holders k = some ⟨crew, .reopened sub⟩) :
    Owned ({ s with idle := sub :: s.idle }.setStage k crew .givenBack) := by
  refine h.update rfl (Nat.le_refl _) (nodup_cons.2 ⟨fun hmem => ?_, h.nodup⟩) nofun ?_
  · exact (h.shelf sub hmem).2 k _ hk rfl
  · intro sub' hmem
    obtain rfl | hmem := mem_cons.1 hmem
    · exact ⟨h.minted k _ sub' hk rfl, h.others hk rfl⟩
    · exact h.shelf_others k sub' hmem

/-- **A channel stays one subscription's**, whatever is done. -/
theorem trans (ht : HubTrans s act s') : Owned s' := by
  have hremove : ∀ {s : Hub} {crew}, Owned s → Owned (s.remove crew) := by
    intro s crew h
    obtain ⟨-, heq⟩ | ⟨tx, -, heq⟩ := s.remove_cases crew
    · rwa [heq]
    · rw [heq]
      exact ⟨h.inj, h.minted, h.shelf, h.nodup⟩
  cases ht with
  | opened | failed | cleaned | sent => exact ⟨h.inj, h.minted, h.shelf, h.nodup⟩
  | @finished r | @abandoned r => exact hremove ⟨h.inj, h.minted, h.shelf, h.nodup⟩
  | removed => exact hremove h
  | @looked k crew =>
    have hbus : Owned { s with bus := (s.bus.sender crew).1 } := ⟨h.inj, h.minted, h.shelf, h.nodup⟩
    exact hbus.look k crew _
  | minted => exact h.mintFor _ _ _
  | taken hk hidle => exact h.take _ _ _ hidle
  | added hk | unsubscribed hk | closed hk | recycled hk => exact h.keep hk rfl rfl rfl rfl
  | shelved hk => exact h.shelve hk
  | refused => exact h

end Owned

/-- A subscription goes to another stage: what it does to the others' channels is nothing. -/
theorem Attended.move (h : Attended s) (hk : s.holders k = some ⟨crew, stage⟩)
    (hholders : s'.holders = update s.holders k (some ⟨crew, stage'⟩)) (hruns : s'.runs = s.runs)
    (hchannels : s'.bus.channels = s.bus.channels) (hnext : s'.bus.next = s.bus.next)
    (howned : Owned s')
    (hothers : ∀ k' holder sub, k' ≠ k → s.holders k' = some holder → holder.stage.sub = some sub →
      s'.closed sub = s.closed sub ∧ ∀ tx, sub ∈ s.bus.subs tx → sub ∈ s'.bus.subs tx)
    (hjoining : ∀ tx, stage'.joining = some tx → stage.joining = some tx)
    (hlisted : ∀ sub, stage' = .handed sub → s'.closed sub = false →
      ∃ tx, s.bus.channels.lookup crew = some tx ∧ sub ∈ s'.bus.subs tx)
    (hquiet : stage.Quiet s.closed → stage'.Quiet s'.closed) : Attended s' := by
  have hcases := update_some_cases hholders
  refine ⟨⟨?_, ?_⟩, howned, ?_, ?_, ?_⟩
  · rw [hchannels, hnext]
    exact h.distinct.below
  · rw [hchannels]
    exact h.distinct.inj
  · intro k' crew' stage₁ tx hk' htx
    rw [hchannels]
    obtain ⟨-, heq⟩ | ⟨-, hold⟩ := hcases k' _ hk'
    · cases heq
      exact h.joining k crew stage tx hk (hjoining tx htx)
    · exact h.joining k' crew' stage₁ tx hold htx
  · intro k' crew' sub hk' hopen
    rw [hchannels]
    obtain ⟨-, heq⟩ | ⟨hne, hold⟩ := hcases k' _ hk'
    · cases heq
      exact hlisted sub rfl hopen
    · obtain ⟨hclosed, hsubs⟩ := hothers k' _ sub hne hold rfl
      rw [hclosed] at hopen
      obtain ⟨tx, hl, hmem⟩ := h.listed k' crew' sub hold hopen
      exact ⟨tx, hl, hsubs tx hmem⟩
  · intro crew' hover k' stage₁ hk'
    have hover' : s.Over crew' := by
      unfold Hub.Over at hover
      rwa [hruns] at hover
    obtain ⟨-, heq⟩ | ⟨hne, hold⟩ := hcases k' _ hk'
    · cases heq
      exact hquiet (h.quiet crew hover' k stage hk)
    · have hquiet' := h.quiet crew' hover' k' stage₁ hold
      cases stage₁ with
      | looked | taken => exact hquiet'
      | handed sub | dropped sub => exact (hothers k' _ sub hne hold rfl).1.trans hquiet'
      | reopened | givenBack => trivial

end Moves

/-! ### Every interleaving -/

/-- The action takes the sender of `crew` off the bus, if it has one. -/
def Drops (s : Hub) : HubAct → String → Prop
  | .finish r (.ok _), crew | .abandon r, crew => s.runs r = some { crew }
  | .remove crew', crew => crew' = crew
  | .cleanupOrphans, crew => Orphan s.bus crew
  | .opens _ crew', crew | .sender crew', crew | .lookup _ crew', crew =>
    Crowded s.bus crew' ∧ Orphan s.bus crew
  | _, _ => False

/-- What the code does not see to. -/
structure Calm (s : Hub) (act : HubAct) : Prop where
  /-- No sender goes that a subscription is about to join. -/
  joined : ∀ crew, Drops s act crew → ∀ k stage, s.holders k = some ⟨crew, stage⟩ →
    stage.joining = none
  /-- No run ends in a scheduling error while a subscription to its crew is open or under way. -/
  failed : ∀ r e crew, act = .finish r (.error e) → s.runs r = some { crew } →
    ∀ k stage, s.holders k = some ⟨crew, stage⟩ → stage.Quiet s.closed
  /-- No other run ends while a subscription is off its sender's list and not closed. -/
  shut : ∀ r crew, act = .abandon r ∨ (∃ state, act = .finish r (.ok state)) →
    s.runs r = some { crew } →
    ∀ k sub, s.holders k = some ⟨crew, .dropped sub⟩ → s.closed sub = true
  /-- Nobody subscribes to a crew whose runs are over. -/
  early : ∀ k crew, act = .lookup k crew → ¬ s.Over crew

/-- A run ends, and removes its crew's sender. -/
theorem Attended.endRemove (h : Attended s) (hrun : s.runs r = some { crew })
    (hjoin : ∀ k stage, s.holders k = some ⟨crew, stage⟩ → stage.joining = none)
    (hshut : ∀ k sub, s.holders k = some ⟨crew, .dropped sub⟩ → s.closed sub = true) :
    Attended ((s.endRun r crew).remove crew) := by
  have hcomm : (s.endRun r crew).remove crew = (s.remove crew).endRun r crew := by
    cases hl : s.bus.channels.lookup crew with
    | none => simp only [Hub.remove, Hub.endRun, hl]
    | some =>
      simp only [Hub.remove, Hub.endRun, hl]
      rfl
  have hsame : (s.remove crew).runs = s.runs ∧ (s.remove crew).holders = s.holders ∧
      ∀ sub, s.closed sub = true → (s.remove crew).closed sub = true := by
    obtain ⟨-, heq⟩ | ⟨tx, -, heq⟩ := s.remove_cases crew <;> simp +contextual [heq]
  obtain ⟨hruns, hholders, hclosed⟩ := hsame
  rw [hcomm]
  refine (h.remove hjoin).endRun (hruns ▸ hrun) fun k stage hk => ?_
  rw [hholders] at hk
  have hnone := hjoin k stage hk
  cases stage with
  | looked | taken => cases hnone
  | handed => exact h.closed_remove hk
  | dropped sub => exact hclosed sub (hshut k sub hk)
  | reopened | givenBack => trivial

theorem Attended.open (h : Attended s) (hnew : s.runs r = none) :
    Attended { s with runs := update s.runs r (some { crew }) } := by
  refine ⟨h.distinct, ⟨h.owned.inj, h.owned.minted, h.owned.shelf, h.owned.nodup⟩, h.joining,
    h.listed, ?_⟩
  exact fun id hover => h.quiet id (hover.of_update rfl (by simp) (by simp [hnew]))

/-- A subscription starts. -/
theorem Attended.look (h : Attended s) (k : Nat)
    (hl : s.bus.channels.lookup crew = some tx) (hover : ¬ s.Over crew) :
    Attended (s.setStage k crew (.looked tx)) := by
  have hcases := update_some_cases (rfl : (s.setStage k crew (.looked tx)).holders = _)
  refine ⟨h.distinct, ?_, ?_, ?_, ?_⟩
  · exact h.owned.look k crew tx
  · intro k' crew' stage tx' hk' htx'
    obtain ⟨-, heq⟩ | ⟨-, hold⟩ := hcases k' _ hk'
    · cases heq
      cases htx'
      exact hl
    · exact h.joining k' crew' stage tx' hold htx'
  · intro k' crew' sub hk' hopen
    obtain ⟨-, heq⟩ | ⟨-, hold⟩ := hcases k' _ hk'
    · cases heq
    · exact h.listed k' crew' sub hold hopen
  · intro crew' hover' k' stage hk'
    obtain ⟨-, heq⟩ | ⟨-, hold⟩ := hcases k' _ hk'
    · cases heq
      exact absurd hover' hover
    · exact h.quiet crew' hover' k' stage hold

theorem Attended.mintFor (h : Attended s) {k : Nat} (hk : s.holders k = some ⟨crew, .looked tx⟩) :
    Attended (s.mintFor k crew tx) := by
  refine h.move hk rfl rfl rfl rfl (h.owned.mintFor k crew tx)
    (fun k' holder sub _ hk' hsub => ⟨?_, fun _ hmem => hmem⟩) (fun _ htx => htx) nofun False.elim
  have hne : sub ≠ s.minted := by
    rintro rfl
    exact h.owned.fresh k' holder hk' hsub
  exact update_of_ne hne ..

/-- A calm step keeps the hub attended. -/
theorem Attended.keep (h : Attended s) (hcalm : Calm s act) (ht : HubTrans s act s') :
    Attended s' := by
  cases ht with
  | opened hnew =>
    exact (h.rebus h.distinct.sender h.distinct.spared_sender hcalm.joined).open hnew
  | failed hrun => exact h.endRun hrun (hcalm.failed _ _ _ rfl hrun)
  | finished hrun =>
    exact h.endRemove hrun (hcalm.joined _ hrun) (hcalm.shut _ _ (.inr ⟨_, rfl⟩) hrun)
  | abandoned hrun => exact h.endRemove hrun (hcalm.joined _ hrun) (hcalm.shut _ _ (.inl rfl) hrun)
  | removed => exact h.remove (hcalm.joined _ rfl)
  | cleaned => exact h.rebus h.distinct.cleanup spared_cleanup hcalm.joined
  | sent => exact h.rebus h.distinct.sender h.distinct.spared_sender hcalm.joined
  | @looked k crew =>
    have hbus := h.rebus h.distinct.sender h.distinct.spared_sender hcalm.joined
    exact hbus.look k lookup_sender (hcalm.early k crew rfl)
  | minted hk => exact h.mintFor hk
  | taken hk hidle =>
    exact h.move hk rfl rfl rfl rfl (h.owned.take _ _ _ hidle)
      (fun _ _ _ _ _ _ => ⟨rfl, fun _ hmem => hmem⟩) (fun _ htx => htx) nofun False.elim
  | @added k crew tx sub hk =>
    refine h.move hk rfl rfl rfl rfl (h.owned.keep hk rfl rfl rfl rfl)
      (fun _ _ _ _ _ _ => ⟨rfl, fun _ hmem => mem_add.2 (.inl hmem)⟩) nofun ?_ False.elim
    rintro sub' ⟨⟩ -
    exact ⟨tx, h.joining k crew _ tx hk rfl, mem_add.2 (.inr ⟨rfl, rfl⟩)⟩
  | @unsubscribed k tx crew sub hk hmem =>
    refine h.move hk rfl rfl rfl rfl (h.owned.keep hk rfl rfl rfl rfl)
      (fun k' holder sub' hne hk' hsub' => ⟨rfl, fun tx' hmem' => ?_⟩) nofun nofun fun hquiet =>
        hquiet
    have hsub := h.owned.sub_ne hk rfl hne hk' hsub'
    by_cases heq : tx' = tx
    · simp only [Hub.setStage, heq, update_self]
      exact (mem_erase_of_ne hsub).2 (heq ▸ hmem')
    · simpa only [Hub.setStage, update_of_ne heq] using hmem'
  | @closed k crew sub hk =>
    refine h.move hk rfl rfl rfl rfl (h.owned.keep hk rfl rfl rfl rfl)
      (fun k' holder sub' hne hk' hsub' => ⟨?_, fun _ hmem => hmem⟩) nofun ?_ fun _ => ?_
    · exact update_of_ne (h.owned.sub_ne hk rfl hne hk' hsub') ..
    · rintro sub' ⟨⟩ hopen
      simp [Hub.setStage] at hopen
    · exact update_self ..
  | @recycled k crew sub hk =>
    refine h.move hk rfl rfl rfl rfl (h.owned.keep hk rfl rfl rfl rfl)
      (fun k' holder sub' hne hk' hsub' => ⟨?_, fun _ hmem => hmem⟩) nofun nofun fun _ => trivial
    exact update_of_ne (h.owned.sub_ne hk rfl hne hk' hsub') ..
  | shelved hk =>
    exact h.move hk rfl rfl rfl rfl (h.owned.shelve hk)
      (fun _ _ _ _ _ _ => ⟨rfl, fun _ hmem => hmem⟩) nofun nofun fun _ => trivial
  | refused => exact h

theorem attended {acts : List HubAct} (h : hub.exec {} acts = some s)
    (hcalm : hub.Along Calm {} acts) :
    Attended s :=
  hub.exec_rule (I := fun _ s => Attended s) attended_start
    (fun _ _ _ _ hI hact hstep => hI.keep hact (hubStep_trans hstep)) hcalm h

/-- **Once a run is over its subscriptions are closed.** In every interleaving in which no sender is
removed that a subscription is about to join, no run ends in a scheduling error with a subscription
left, and nobody subscribes after the end: where every run of a crew is over, each subscription to
it that was handed out, and not given back since, is closed; and a subscription is only ever added
to the sender that the bus has for its crew. -/
theorem closed_once_over {acts : List HubAct} (h : hub.exec {} acts = some s)
    (hcalm : hub.Along Calm {} acts) :
    (∀ crew, s.Over crew → ∀ k stage sub, s.holders k = some ⟨crew, stage⟩ →
      stage.handedOut = some sub → s.closed sub = true) ∧
    ∀ k s', hub.step s (.add k) = some s' → ∃ crew tx sub,
      s.holders k = some ⟨crew, .taken tx sub⟩ ∧
      s.bus.channels.lookup crew = some tx := by
  have hattended := attended h hcalm
  refine ⟨fun crew hover k stage sub hk hsub => ?_, fun k s' hstep => ?_⟩
  · have hquiet := hattended.quiet crew hover k stage hk
    cases stage with
    | looked | taken | reopened | givenBack => cases hsub
    | handed | dropped =>
      cases hsub
      exact hquiet
  · cases hubStep_trans hstep with
    | minted _ hact =>
      obtain hact | hact := hact <;> cases hact
    | added hk => exact ⟨_, _, _, hk, hattended.joining k _ _ _ hk rfl⟩
    | refused hact =>
      obtain ⟨_, _, hact⟩ | ⟨_, hact⟩ := hact <;> cases hact

/-- The one run is over. -/
theorem over_of_first (hfirst : s.runs 0 = some ⟨crew, true⟩) (hrest : ∀ r, s.runs (r + 1) = none) :
    s.Over crew := by
  refine ⟨⟨0, hfirst⟩, ?_⟩
  rintro (_ | r) hr
  · rw [hfirst] at hr
    cases hr
  · rw [hrest r] at hr
    cases hr

/-- A subscription that is made before the run starts and joined while it runs. -/
theorem closed_once_over_joined :
    ∃ s, hub.exec {} [.lookup 0 "crew", .takeIdle 0, .opens 0 "crew", .add 0,
        .finish 0 (.ok { crewId := "crew", status := .completed })] = some s ∧
      s.holders 0 = some ⟨"crew", .handed 0⟩ ∧ s.closed 0 = true := by
  have hcalm : hub.Along Calm {} [.lookup 0 "crew", .takeIdle 0, .opens 0 "crew", .add 0,
      .finish 0 (.ok { crewId := "crew", status := .completed })] := by
    refine .cons _ rfl ⟨?_, nofun, nofun, ?_⟩ <| .cons _ rfl ⟨nofun, nofun, nofun, nofun⟩ <|
      .cons _ rfl ⟨?_, nofun, nofun, nofun⟩ <| .cons _ rfl ⟨nofun, nofun, nofun, nofun⟩ <|
      .cons _ rfl ⟨?_, nofun, ?_, nofun⟩ trivial
    · rintro crew ⟨⟨-, hcap⟩, -⟩
      exact absurd hcap (by decide)
    · rintro k crew - ⟨⟨r, hr⟩, -⟩
      cases hr
    · rintro crew ⟨⟨hnone, -⟩, -⟩
      cases hnone
    · rintro crew - (_ | k) stage hk
      · cases hk
        rfl
      · cases hk
    · rintro r crew - - (_ | k) sub hk
      · cases hk
      · cases hk
  refine ⟨_, rfl, rfl, (closed_once_over rfl hcalm).1 "crew" ?_ 0 (.handed 0) 0 rfl rfl⟩
  exact over_of_first rfl fun _ => rfl

/-- **What is left open.** After a scheduling error the subscription is. Where the removal falls
between the lookup and the joining, the subscription is added to a sender that the bus has removed,
and is. And so is one that comes after the end, on a sender of its own. -/
theorem left_open :
    (∃ s, hub.exec {} [.opens 0 "crew", .lookup 0 "crew", .takeIdle 0, .add 0,
        .finish 0 (.error (.scheduling ""))] = some s ∧
      s.Over "crew" ∧ s.holders 0 = some ⟨"crew", .handed 0⟩ ∧ s.closed 0 = false) ∧
    (∃ s s', hub.exec {} [.opens 0 "crew", .lookup 0 "crew", .takeIdle 0,
        .finish 0 (.ok { crewId := "crew", status := .completed })] = some s ∧
      s.holders 0 = some ⟨"crew", .taken 0 0⟩ ∧ s.bus.channels.lookup "crew" = none ∧
      hub.step s (.add 0) = some s' ∧
      s'.Over "crew" ∧ s'.holders 0 = some ⟨"crew", .handed 0⟩ ∧ s'.closed 0 = false) ∧
    ∃ s, hub.exec {} [.opens 0 "crew", .finish 0 (.ok { crewId := "crew", status := .completed }),
        .lookup 0 "crew", .takeIdle 0, .add 0] = some s ∧
      s.Over "crew" ∧ s.holders 0 = some ⟨"crew", .handed 0⟩ ∧ s.closed 0 = false :=
  ⟨⟨_, rfl, over_of_first rfl fun _ => rfl, rfl, rfl⟩,
    ⟨_, _, rfl, rfl, rfl, rfl, over_of_first rfl fun _ => rfl, rfl, rfl⟩,
    ⟨_, rfl, over_of_first rfl fun _ => rfl, rfl, rfl⟩⟩

end Agnosai.Subscriptions
