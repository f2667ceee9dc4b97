import Mathlib.Data.List.Perm.Basic
import Agnosai.Orchestrator.Audit.Recording

/-!
# Orchestrator — what the audit chain's verification shows

Somebody without the key puts another list in place of the entries. A signed message pins the
hash, hence the data, and the previous hash, so an entry that passes is one that was linked
(`genuine`); and the anchor and the links say which ones, in which order, from the front. So the
check passes exactly on the beginnings of the retained list (`verify_iff_isPrefix`). The chain's
last hash would tell of a cut, and `agnosai_audit_verify` does not compare with it
(`retained_iff_last_hash`).
-/

namespace Agnosai.Audit

open List

variable {c : Crypto} {key : c.Key} {maxEntries : Int} {draw : Nat → Uuid} {s s' : Log c}
  {forged : List Entry}

/-- Another list in place of the entries. -/
def Chain.withEntries (chain : Chain c) (es : List Entry) : Chain c := { chain with entries := es }

/-- No two of these data share a hash, and none has the one chains start from. -/
structure CollisionFree (c : Crypto) (ds : List EntryData) : Prop where
  injective : ∀ d ∈ ds, ∀ d' ∈ ds, entryHash c d = entryHash c d' → d = d'
  ne_genesis : ∀ d ∈ ds, entryHash c d ≠ genesis

/-- The message an entry's signature is over. -/
def signedMessage (c : Crypto) (e : Entry) : String :=
  signInput (entryHash c e.toEntryData) e.prevHash

/-- Where an entry carries a valid signature, its message was signed with the key. -/
def Unforgeable (c : Crypto) (key : c.Key) (signed : List String) (es : List Entry) : Prop :=
  ∀ e ∈ es, e.signature = sign c key (entryHash c e.toEntryData) e.prevHash →
    signedMessage c e ∈ signed

/-- `sha256_hex` writes 64 digits. -/
def HexDigests (c : Crypto) : Prop := ∀ text, (c.sha256Hex text).length = 64

/-- What a recorder signed. -/
def Log.signed (s : Log c) : List String := s.linked.map (signedMessage c)

/-! ### Ids -/

/-- The ids handed out so far are those of the draws made so far. -/
def Drawn (draw : Nat → Uuid) (s : Log c) : Prop :=
  (s.waiting.map (·.1.id) ++ s.linked.map (·.id)).Perm
    ((range s.draws).map fun n => (draw n).v4.toStr)

/-- A step hands out only what it draws. -/
theorem Drawn.step (hs : Drawn draw s) {a : Action} (h : (log c draw).step s a = some s') :
    Drawn draw s' := by
  cases a with
  | hash =>
    obtain rfl := Option.some.inj h
    simp only [Drawn, map_append, map_cons, map_nil, range_succ,
      append_assoc]
    refine (perm_append_comm.append_left _).trans ?_
    rw [← append_assoc]
    exact hs.append_right _
  | link k =>
    simp only [log] at h
    split at h
    · cases h
    next d e hk =>
      obtain rfl := Option.some.inj h
      obtain ⟨hlt, hget⟩ := List.getElem?_eq_some_iff.1 hk
      -- the id that leaves the waiting ones joins the linked ones
      have hout : (d.id :: (s.waiting.eraseIdx k).map (·.1.id)).Perm (s.waiting.map (·.1.id)) := by
        have := (List.getElem_cons_eraseIdx_perm hlt).map (·.1.id)
        rwa [map_cons, hget] at this
      refine Perm.trans ?_ ((hout.append_right _).trans hs)
      simp only [map_append, map_cons, map_nil, ← append_assoc]
      exact perm_append_singleton _ _

/-- Distinct draws, distinct data. -/
theorem Drawn.nodup (hs : Drawn draw s)
    (hd : ∀ i < s.draws, ∀ j < s.draws, (draw i).v4 = (draw j).v4 → i = j) :
    (s.linked.map (·.toEntryData)).Nodup := by
  have hids : ((range s.draws).map fun n => (draw n).v4.toStr).Nodup :=
    nodup_range.map_on fun i hi j hj hij =>
      hd i (mem_range.1 hi) j (mem_range.1 hj) (Uuid.toStr_injective hij)
  have hlinked : ((s.linked.map (·.toEntryData)).map (·.id)).Nodup := by
    rw [map_map]
    exact (hs.nodup_iff.2 hids).of_append_right
  exact hlinked.of_map _

/-! ### Genuine entries -/

/-- A signed message is read back in one way: the hash in it has 64 digits. -/
theorem signInput_injective {h h' p p' : String} (hlen : h.length = h'.length)
    (heq : signInput h p = signInput h' p') : h = h' ∧ p = p' := by
  have hlist : h.toList ++ (':' :: p.toList) = h'.toList ++ (':' :: p'.toList) := by
    simpa [signInput] using congrArg String.toList heq
  obtain ⟨hh, hp⟩ := append_inj hlist (by rwa [String.length_toList, String.length_toList])
  exact ⟨String.toList_injective hh, String.toList_injective (cons.inj hp).2⟩

/-- An entry with a valid signature was linked: the message it is over names its data and its
previous hash. -/
theorem genuine (hs : Sound key maxEntries s) (hlen : HexDigests c)
    (hcf : CollisionFree c ((s.linked ++ forged).map (·.toEntryData)))
    (huf : Unforgeable c key s.signed forged) {f : Entry} (hf : f ∈ forged)
    (hsealed : (links c key).Sealed f) : f ∈ s.linked := by
  obtain ⟨e, he, hmessage⟩ := mem_map.1 (huf f hf hsealed)
  obtain ⟨hhash, hprev⟩ := signInput_injective ((hlen _).trans (hlen _).symm) hmessage
  have hdata : e.toEntryData = f.toEntryData :=
    hcf.injective _ (mem_map_of_mem (mem_append_left _ he))
      _ (mem_map_of_mem (mem_append_right _ hf)) hhash
  have hsignature : e.signature = f.signature := by
    have hsealed' : e.signature = sign c key (entryHash c e.toEntryData) e.prevHash :=
      hs.chained.sealed _ he
    rw [hsealed', hdata, hprev]
    exact hsealed.symm
  have hef : e = f := by
    cases e
    cases f
    cases hdata
    cases hprev
    cases hsignature
    rfl
  rwa [← hef]

/-- The hashes along the linked entries do not come back. -/
theorem fresh_linked (key : c.Key) (hids : (s.linked.map (·.toEntryData)).Nodup)
    (hcf : CollisionFree c ((s.linked ++ forged).map (·.toEntryData))) :
    (links c key).Fresh genesis s.linked := by
  have hmem : ∀ d ∈ s.linked.map (·.toEntryData), d ∈ (s.linked ++ forged).map (·.toEntryData) :=
    fun d hd => by
      rw [map_append]
      exact mem_append_left _ hd
  have hdigests : s.linked.map (links c key).digest
      = (s.linked.map (·.toEntryData)).map (entryHash c) := by
    rw [map_map]
    rfl
  rw [HashChain.Fresh, hdigests, nodup_cons]
  refine ⟨fun hg => ?_, hids.map_on fun d hd d' hd' hdd => ?_⟩
  · obtain ⟨d, hd, hdg⟩ := mem_map.1 hg
    exact hcf.ne_genesis d (hmem d hd) hdg
  · exact hcf.injective d (hmem d hd) d' (hmem d' hd') hdd

/-! ### Verification -/

section

variable (hs : Sound key maxEntries s) (hlen : HexDigests c)
    (hids : (s.linked.map (·.toEntryData)).Nodup)
    (hcf : CollisionFree c ((s.linked ++ forged).map (·.toEntryData)))
    (huf : Unforgeable c key s.signed forged)
include hs hlen hids hcf huf

/-- **What passes.** A list put in place of the entries verifies iff it is a beginning of them. -/
theorem verify_iff_isPrefix :
    (s.chain.withEntries forged).verify = none ↔ forged <+: s.chain.entries := by
  have hretained := verify_eq_none.1 hs.verify
  rw [verify_eq_none]
  change (links c s.chain.key).Chained s.chain.firstValidHash forged ↔ _
  rw [hs.key_eq] at hretained ⊢
  refine ⟨fun hc => ?_, fun hp => hretained.of_isPrefix _ hp⟩
  obtain ⟨gone, hlinked, hanchor, -⟩ := hs.retained
  have hfresh := fresh_linked key hids hcf
  have hchained := hs.chained
  have hgenuine : ∀ f ∈ forged, f ∈ s.linked := fun f hf =>
    genuine hs hlen hcf huf hf (hc.sealed _ hf)
  rw [hlinked] at hfresh hchained hgenuine
  rw [hanchor] at hc
  exact HashChain.isPrefix_of_chained hchained hfresh hgenuine hc

/-- Comparing the end of the walk with the last hash would leave only the retained list. -/
theorem retained_iff_last_hash :
    (s.chain.withEntries forged).verify = none ∧
        (links c key).tip s.chain.firstValidHash forged = s.chain.lastHash ↔
      forged = s.chain.entries := by
  rw [verify_iff_isPrefix hs hlen hids hcf huf]
  obtain ⟨gone, hlinked, hanchor, -⟩ := hs.retained
  have htip : s.chain.lastHash = (links c key).tip s.chain.firstValidHash s.chain.entries := by
    rw [hs.last, hlinked, HashChain.tip_append, hanchor]
  have hfresh : (links c key).Fresh s.chain.firstValidHash s.chain.entries := by
    have hall := fresh_linked key hids hcf
    rw [hlinked] at hall
    rw [hanchor]
    exact hall.append_right
  rw [htip]
  constructor
  · rintro ⟨hp, ht⟩
    exact HashChain.eq_of_tip_eq hfresh hp ht
  · rintro rfl
    exact ⟨prefix_rfl, rfl⟩

end

/-- What a run of the log leaves. -/
theorem sound_of_exec {max_pos : 0 < maxEntries} {as : List Action}
    (hrun : (log c draw).exec (Log.start key maxEntries max_pos) as = some s) :
    Sound key maxEntries s ∧ Drawn draw s :=
  (log c draw).exec_invariant (I := fun s => Sound key maxEntries s ∧ Drawn draw s)
    ⟨Sound.start max_pos, Perm.refl _⟩ (fun _ _ _ hs h => ⟨hs.1.step h, hs.2.step h⟩) hrun

/-- **Every edit of the log shows, a cut at its end apart.** Whatever list somebody without the key
puts in place of the entries of a chain, that it verifies says that nothing was changed, unless the
list is a beginning of the retained entries with the newest ones missing. -/
theorem tampering_shown (hlen : HexDigests c) {max_pos : 0 < maxEntries} {as : List Action}
    (hrun : (log c draw).exec (Log.start key maxEntries max_pos) as = some s)
    (hd : ∀ i < s.draws, ∀ j < s.draws, (draw i).v4 = (draw j).v4 → i = j)
    (hcf : CollisionFree c ((s.linked ++ forged).map (·.toEntryData)))
    (huf : Unforgeable c key s.signed forged) :
    ((s.chain.withEntries forged).verify = none → forged = s.chain.entries) ↔
      ¬ (forged <+: s.chain.entries ∧ forged ≠ s.chain.entries) := by
  obtain ⟨hs, hdrawn⟩ := sound_of_exec hrun
  rw [verify_iff_isPrefix hs hlen (hdrawn.nodup hd) hcf huf]
  constructor
  · rintro h ⟨hp, hne⟩
    exact hne (h hp)
  · intro h hp
    by_contra hne
    exact h ⟨hp, hne⟩

/-! ### Reusing what was linked -/

/-- Linked entries, in whatever order and number, add no collision. -/
theorem CollisionFree.of_linked (hfresh : (links c key).Fresh genesis s.linked)
    (hsub : ∀ f ∈ forged, f ∈ s.linked) :
    CollisionFree c ((s.linked ++ forged).map (·.toEntryData)) := by
  obtain ⟨hgenesis, hdigests⟩ := nodup_cons.1 hfresh
  have hlinked : ∀ d ∈ (s.linked ++ forged).map (·.toEntryData),
      ∃ e ∈ s.linked, e.toEntryData = d := by
    intro d hd
    obtain ⟨e, he, rfl⟩ := mem_map.1 hd
    exact ⟨e, (mem_append.1 he).elim id (hsub e), rfl⟩
  constructor
  · intro d hd d' hd' hdd
    obtain ⟨e, he, rfl⟩ := hlinked d hd
    obtain ⟨e', he', rfl⟩ := hlinked d' hd'
    exact congrArg _ (inj_on_of_nodup_map hdigests he he' hdd)
  · intro d hd hg
    obtain ⟨e, he, rfl⟩ := hlinked d hd
    exact hgenesis (mem_map.2 ⟨e, he, hg⟩)

theorem Unforgeable.of_linked (hsub : ∀ f ∈ forged, f ∈ s.linked) :
    Unforgeable c key s.signed forged := fun f hf _ => mem_map_of_mem (hsub f hf)

theorem hexDigests_sample : HexDigests sampleCrypto := by
  intro text
  simp [sampleCrypto]

/-- Two calls on a chain with room for both. -/
def sampleActions : List Action := [.hash sampleCall, .hash sampleCall, .link 0, .link 0]

theorem sample_exec :
    ∃ s, (log sampleCrypto sampleDraw).exec (Log.start () 2 (by decide)) sampleActions = some s ∧
      s.draws = 2 ∧ s.linked = s.chain.entries ∧ s.chain.entries.length = 2 ∧
      (links sampleCrypto ()).Fresh genesis s.linked := by
  have hrun : ((log sampleCrypto sampleDraw).exec (Log.start () 2 (by decide))
      sampleActions).isSome = true := rfl
  obtain ⟨s, hs⟩ := Option.isSome_iff_exists.1 hrun
  refine ⟨s, hs, ?_⟩
  cases hs
  refine ⟨rfl, rfl, rfl, ?_⟩
  unfold HashChain.Fresh
  decide +kernel

theorem distinct_sampleDraw :
    ∀ i < 2, ∀ j < 2, (sampleDraw i).v4 = (sampleDraw j).v4 → i = j := by
  decide

/-- The two entries exchanged. -/
theorem tampering_shown_reversed :
    ∃ s, (log sampleCrypto sampleDraw).exec (Log.start () 2 (by decide)) sampleActions = some s ∧
      s.chain.entries.length = 2 ∧
      (((s.chain.withEntries s.chain.entries.reverse).verify = none →
          s.chain.entries.reverse = s.chain.entries) ↔
        ¬ (s.chain.entries.reverse <+: s.chain.entries ∧
          s.chain.entries.reverse ≠ s.chain.entries)) := by
  obtain ⟨s, hrun, hdraws, hall, htwo, hfresh⟩ := sample_exec
  have hsub : ∀ f ∈ s.chain.entries.reverse, f ∈ s.linked := fun f hf =>
    hall ▸ mem_reverse.1 hf
  exact ⟨s, hrun, htwo, tampering_shown hexDigests_sample hrun
    (hdraws ▸ distinct_sampleDraw) (.of_linked hfresh hsub) (.of_linked hsub)⟩

/-- The newest entry is cut off, and the rest verifies. -/
theorem truncation_verifies :
    ∃ s, (log sampleCrypto sampleDraw).exec (Log.start () 2 (by decide)) sampleActions = some s ∧
      HexDigests sampleCrypto ∧
      (∀ i < s.draws, ∀ j < s.draws, (sampleDraw i).v4 = (sampleDraw j).v4 → i = j) ∧
      CollisionFree sampleCrypto ((s.linked ++ s.chain.entries.take 1).map (·.toEntryData)) ∧
      Unforgeable sampleCrypto () s.signed (s.chain.entries.take 1) ∧
      (s.chain.withEntries (s.chain.entries.take 1)).verify = none ∧
      s.chain.entries.take 1 ≠ s.chain.entries := by
  obtain ⟨s, hrun, hdraws, hall, htwo, hfresh⟩ := sample_exec
  have hsub : ∀ f ∈ s.chain.entries.take 1, f ∈ s.linked := fun f hf =>
    hall ▸ mem_of_mem_take hf
  obtain ⟨hs, hdrawn⟩ := sound_of_exec hrun
  have hd : ∀ i < s.draws, ∀ j < s.draws, (sampleDraw i).v4 = (sampleDraw j).v4 → i = j :=
    hdraws ▸ distinct_sampleDraw
  have hcf := CollisionFree.of_linked hfresh hsub
  have huf : Unforgeable sampleCrypto () s.signed (s.chain.entries.take 1) := .of_linked hsub
  refine ⟨s, hrun, hexDigests_sample, hd, hcf, huf, ?_, ?_⟩
  · have htake : s.chain.entries.take 1 <+: s.chain.entries := take_prefix 1 _
    exact (verify_iff_isPrefix hs hexDigests_sample (hdrawn.nodup hd) hcf huf).2 htake
  · intro heq
    have := congrArg length heq
    rw [length_take, htwo] at this
    exact absurd this (by decide)

end Agnosai.Audit
