import Agnosai.Server.Subscriptions.Closed

/-!
# Server — Subscriptions — Placed

What is on a sender's list is handed out, open, and there once (`Placed`). With `Owned` it keeps
the places of a channel apart: one that is taken, given back or on the idle stack is on no list.
Nothing is asked of the steps.
-/

namespace Agnosai.Subscriptions

open Sse Function

variable {s s' : Hub} {act : HubAct} {crew : String} {k sub : Nat} {stage stage' : Stage}

def Hub.Handed (s : Hub) (sub : Nat) : Prop := ∃ k crew, s.holders k = some ⟨crew, .handed sub⟩

/-- What is on a list is handed out, open, and on no other list. -/
structure Placed (s : Hub) : Prop where
  listed : ∀ tx sub, sub ∈ s.bus.subs tx → s.Handed sub
  closed : ∀ sub, s.closed sub = true → s.Handed sub ∧ ∀ tx, sub ∉ s.bus.subs tx
  once : ∀ tx tx' sub, sub ∈ s.bus.subs tx → sub ∈ s.bus.subs tx' → tx = tx'
  nodup : ∀ tx, (s.bus.subs tx).Nodup

theorem placed_start : Placed {} where
  listed := nofun
  closed _ h := absurd h Bool.false_ne_true
  once := nofun
  nodup _ := List.nodup_nil

/-- A channel that is handed out is at no other stage. -/
theorem Owned.handed_stage (h : Owned s) (hhanded : s.Handed sub)
    (hk : s.holders k = some ⟨crew, stage⟩)
    (hsub : stage.sub = some sub) : stage = .handed sub := by
  obtain ⟨k', crew', hk'⟩ := hhanded
  obtain rfl := h.inj k' k _ _ sub hk' hk rfl hsub
  rw [hk] at hk'
  cases hk'
  rfl

/-- Others stay handed out while a subscription moves. -/
theorem Hub.Handed.update (h : s.Handed sub)
    (hholders : s'.holders = update s.holders k (some ⟨crew, stage'⟩))
    (hk : ∀ crew, s.holders k ≠ some ⟨crew, .handed sub⟩) : s'.Handed sub := by
  obtain ⟨k', crew', hk'⟩ := h
  have hne : k' ≠ k := by
    rintro rfl
    exact hk crew' hk'
  exact ⟨k', crew', by rw [hholders, update_of_ne hne, hk']⟩

/-- The subscription that moves was handed out with another channel, or not at all. -/
theorem Hub.Handed.move (h : s.Handed sub) (hk : s.holders k = some ⟨crew, stage⟩)
    (hstage : stage ≠ .handed sub)
    {crew' : String} (hholders : s'.holders = Function.update s.holders k (some ⟨crew', stage'⟩)) :
    s'.Handed sub := by
  refine h.update hholders fun crew₁ hk₁ => ?_
  rw [hk] at hk₁
  cases hk₁
  exact hstage rfl

/-- Lists may get shorter, and subscriptions that are not handed out may move. -/
theorem Placed.mono (h : Placed s) (hsubs : ∀ tx, (s'.bus.subs tx).Sublist (s.bus.subs tx))
    (hclosed : ∀ sub, s'.closed sub = true → s.closed sub = true)
    (hhanded : ∀ sub, s.Handed sub → s'.Handed sub) : Placed s' where
  listed tx sub hmem := hhanded sub (h.listed tx sub ((hsubs tx).subset hmem))
  closed sub hsub :=
    ⟨hhanded sub (h.closed sub (hclosed sub hsub)).1,
      fun tx hmem => (h.closed sub (hclosed sub hsub)).2 tx ((hsubs tx).subset hmem)⟩
  once tx tx' sub hmem hmem' :=
    h.once tx tx' sub ((hsubs tx).subset hmem) ((hsubs tx').subset hmem')
  nodup tx := (h.nodup tx).sublist (hsubs tx)

/-- A removal keeps the rest placed. -/
theorem Placed.remove (h : Placed s) (crew : String) : Placed (s.remove crew) := by
  obtain ⟨-, heq⟩ | ⟨tx, -, heq⟩ := s.remove_cases crew
  · rwa [heq]
  rw [heq]
  refine ⟨fun tx' sub hmem => h.listed tx' sub (mem_drop.1 hmem).2, fun sub hsub => ?_,
    fun tx₁ tx₂ sub h₁ h₂ => h.once tx₁ tx₂ sub (mem_drop.1 h₁).2 (mem_drop.1 h₂).2, fun tx' => ?_⟩
  · obtain hold | hnew := Bool.or_eq_true_iff.1 hsub
    · exact ⟨(h.closed sub hold).1, fun tx' hmem => (h.closed sub hold).2 tx' (mem_drop.1 hmem).2⟩
    · have hlisted := of_decide_eq_true hnew
      refine ⟨h.listed tx sub hlisted, fun tx' hmem => ?_⟩
      exact (mem_drop.1 hmem).1 (h.once tx' tx sub (mem_drop.1 hmem).2 hlisted)
  · by_cases htx : tx' = tx
    · simp [Bus.drop, htx]
    · simp only [Bus.drop, update_of_ne htx]
      exact h.nodup tx'

theorem sender_subs (b : Bus) (tx : Nat) : ((b.sender crew).1.subs tx).Sublist (b.subs tx) := by
  obtain ⟨_, -, heq⟩ | ⟨-, heq⟩ := sender_cases b crew
  · rw [heq]
  · rw [heq]
    by_cases htx : tx = b.next
    · simp only [htx, update_self]
      exact List.nil_sublist _
    · simp only [update_of_ne htx, List.Sublist.refl]

/-- A subscription that is not handed out joins a list. -/
theorem Placed.add (h : Placed s) (howned : Owned s) {tx : Nat}
    (hk : s.holders k = some ⟨crew, .taken tx sub⟩) :
    Placed ({ s with bus := s.bus.add tx sub }.setStage k crew (.handed sub)) := by
  have hnot : ¬ s.Handed sub := fun hhanded => nomatch howned.handed_stage hhanded hk rfl
  have hkeep : ∀ sub', s.Handed sub' →
      ({ s with bus := s.bus.add tx sub }.setStage k crew (.handed sub)).Handed sub' :=
    fun sub' hhanded => hhanded.move hk (by simp) rfl
  refine ⟨fun tx' sub' hmem => ?_,
    fun sub' hsub => ⟨hkeep sub' (h.closed sub' hsub).1, fun tx' hmem => ?_⟩,
    fun tx₁ tx₂ sub' h₁ h₂ => ?_, fun tx' => ?_⟩
  · obtain hmem | ⟨-, rfl⟩ := mem_add.1 hmem
    · exact hkeep sub' (h.listed tx' sub' hmem)
    · exact ⟨k, crew, update_self ..⟩
  · obtain hmem | ⟨-, rfl⟩ := mem_add.1 hmem
    · exact (h.closed sub' hsub).2 tx' hmem
    · exact hnot (h.closed sub' hsub).1
  · obtain hold₁ | ⟨htx₁, rfl⟩ := mem_add.1 h₁
    · obtain hold₂ | ⟨-, rfl⟩ := mem_add.1 h₂
      · exact h.once tx₁ tx₂ sub' hold₁ hold₂
      · exact absurd (h.listed tx₁ sub' hold₁) hnot
    · obtain hold₂ | ⟨htx₂, -⟩ := mem_add.1 h₂
      · exact absurd (h.listed tx₂ sub' hold₂) hnot
      · rw [htx₁, htx₂]
  · by_cases htx : tx' = tx
    · simp only [Hub.setStage, Bus.add, htx, update_self]
      refine (h.nodup tx).append (List.nodup_singleton sub) fun sub' hmem hnew => ?_
      rw [List.mem_singleton.1 hnew] at hmem
      exact hnot (h.listed tx sub hmem)
    · simp only [Hub.setStage, Bus.add, update_of_ne htx]
      exact h.nodup tx'

/-- A subscription leaves the list that it is on. -/
theorem Placed.unsubscribe (h : Placed s) {tx : Nat} (hk : s.holders k = some ⟨crew, .handed sub⟩)
    (hmem : sub ∈ s.bus.subs tx) :
    Placed ({ s with
      bus := { s.bus with subs := update s.bus.subs tx ((s.bus.subs tx).erase sub) } }.setStage
        k crew (.dropped sub)) := by
  have hmem_erase : ∀ {tx' sub'},
      sub' ∈ Function.update s.bus.subs tx ((s.bus.subs tx).erase sub) tx' →
      sub' ≠ sub ∧ sub' ∈ s.bus.subs tx' := by
    intro tx' sub' hmem'
    by_cases htx : tx' = tx
    · rw [htx, update_self, (h.nodup tx).mem_erase_iff] at hmem'
      exact htx ▸ hmem'
    · rw [update_of_ne htx] at hmem'
      refine ⟨?_, hmem'⟩
      rintro rfl
      exact htx (h.once tx' tx sub' hmem' hmem)
  have hkeep : ∀ {sub' : Nat} {s' : Hub},
      s'.holders = update s.holders k (some ⟨crew, .dropped sub⟩) →
      sub' ≠ sub → s.Handed sub' → s'.Handed sub' := by
    intro sub' s' hholders hne hhanded
    exact hhanded.move hk (fun heq => hne (Stage.handed.inj heq).symm) hholders
  refine ⟨fun tx' sub' hmem' => ?_, fun sub' hsub => ⟨?_, fun tx' hmem' => ?_⟩,
    fun tx₁ tx₂ sub' h₁ h₂ => ?_, fun tx' => ?_⟩
  · exact hkeep rfl (hmem_erase hmem').1 (h.listed tx' sub' (hmem_erase hmem').2)
  · refine hkeep rfl ?_ (h.closed sub' hsub).1
    rintro rfl
    exact (h.closed sub' hsub).2 tx hmem
  · exact (h.closed sub' hsub).2 tx' (hmem_erase hmem').2
  · exact h.once tx₁ tx₂ sub' (hmem_erase h₁).2 (hmem_erase h₂).2
  · by_cases htx : tx' = tx
    · simp only [Hub.setStage, htx, update_self]
      exact (h.nodup tx).erase sub
    · simp only [Hub.setStage, update_of_ne htx]
      exact h.nodup tx'

/-- The flag of a subscription that is on no list is set, as its client goes on. -/
theorem Placed.flag {b : Bool} (h : Placed s) (hk : s.holders k = some ⟨crew, stage⟩)
    (hstage : ∀ sub', sub' ≠ sub → stage ≠ .handed sub') (hnot : ∀ tx, sub ∉ s.bus.subs tx)
    (hnew : b = true → stage' = .handed sub) :
    Placed ({ s with closed := Function.update s.closed sub b }.setStage k crew stage') := by
  have hkeep : ∀ sub', sub' ≠ sub → s.Handed sub' →
      ({ s with closed := update s.closed sub b }.setStage k crew stage').Handed sub' :=
    fun sub' hne hhanded => hhanded.move hk (hstage sub' hne) rfl
  refine ⟨fun tx sub' hmem => hkeep sub' ?_ (h.listed tx sub' hmem), fun sub' hsub => ?_,
    h.once, h.nodup⟩
  · rintro rfl
    exact hnot tx hmem
  · by_cases heq : sub' = sub
    · simp only [Hub.setStage, heq, update_self] at hsub
      rw [hnew hsub, heq]
      exact ⟨⟨k, crew, update_self ..⟩, hnot⟩
    · simp only [Hub.setStage, update_of_ne heq] at hsub
      exact ⟨hkeep sub' heq (h.closed sub' hsub).1, (h.closed sub' hsub).2⟩

/-- **What is on a list stays handed out, open and there once**, whatever is done. -/
theorem Placed.trans (h : Placed s) (howned : Owned s) (ht : HubTrans s act s') : Placed s' := by
  cases ht with
  | opened | sent =>
    exact h.mono (sender_subs _) (fun _ hclosed => hclosed) fun _ hhanded => hhanded
  | failed | cleaned =>
    exact h.mono (fun _ => .refl _) (fun _ hclosed => hclosed) fun _ hhanded => hhanded
  | finished | abandoned =>
    refine Placed.remove ?_ _
    exact h.mono (fun _ => .refl _) (fun _ hclosed => hclosed) fun _ hhanded => hhanded
  | removed => exact h.remove _
  | looked hnew =>
    refine h.mono (sender_subs _) (fun _ hclosed => hclosed) fun sub hhanded =>
      hhanded.update rfl fun crew hk => ?_
    rw [hnew] at hk
    cases hk
  | minted hk =>
    refine h.mono (fun _ => .refl _) (fun sub hclosed => ?_) fun _ hhanded =>
      hhanded.move hk (by simp) rfl
    by_cases heq : sub = s.minted
    · simp only [Hub.mintFor, Hub.setStage, heq, update_self, Bool.false_eq_true] at hclosed
    · simpa only [Hub.mintFor, Hub.setStage, update_of_ne heq] using hclosed
  | taken hk | shelved hk =>
    exact h.mono (fun _ => .refl _) (fun _ hclosed => hclosed) fun _ hhanded =>
      hhanded.move hk (by simp) rfl
  | added hk => exact h.add howned hk
  | unsubscribed hk hmem => exact h.unsubscribe hk hmem
  | closed hk =>
    refine h.flag hk (fun _ _ heq => by cases heq) (fun tx hmem => ?_) fun _ => rfl
    cases howned.handed_stage (h.listed tx _ hmem) hk rfl
  | recycled hk hclosed =>
    refine h.flag hk (fun _ hne heq => hne (Stage.handed.inj heq).symm) (h.closed _ hclosed).2
      fun heq => ?_
    cases heq
  | refused => exact h

theorem owned_placed {acts : List HubAct} (h : hub.exec {} acts = some s) : Owned s ∧ Placed s :=
  hub.exec_invariant (I := fun s => Owned s ∧ Placed s) ⟨attended_start.owned, placed_start⟩
    (fun _ _ _ hI hstep =>
      ⟨hI.1.trans (hubStep_trans hstep), hI.2.trans hI.1 (hubStep_trans hstep)⟩) h

end Agnosai.Subscriptions
