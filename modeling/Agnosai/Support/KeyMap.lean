import Mathlib.Algebra.BigOperators.Group.List.Basic
import Mathlib.Data.List.Nodup

/-!
# Support — KeyMap

Finite maps with a size and an order: the entries of distinct keys, in the order the keys were
first set. Setting a key that is there replaces its value in place. `lookup_set` and `lookup_erase`
are all the rest of the development uses of the representation, with `lookup_eq_some` to go back to
it.
-/

namespace Agnosai

open List

/-- A map from `κ` to `β` by its entries, no key twice. -/
structure KeyMap (κ β : Type*) where
  entries : List (κ × β)
  nodup : (entries.map Prod.fst).Nodup

namespace KeyMap

variable {κ β : Type*}

def empty : KeyMap κ β := ⟨[], nodup_nil⟩

def size (m : KeyMap κ β) : Nat := m.entries.length

def keys (m : KeyMap κ β) : List κ := m.entries.map Prod.fst

variable [DecidableEq κ]

def lookup (m : KeyMap κ β) (k : κ) : Option β :=
  (m.entries.find? fun e => e.1 = k).map Prod.snd

/-- An entry with the value of `k` replaced by `v`. -/
def replace (k : κ) (v : β) (e : κ × β) : κ × β := if e.1 = k then (k, v) else e

theorem replace_fst (k : κ) (v : β) (e : κ × β) : (replace k v e).1 = e.1 := by
  unfold replace
  split
  next h =>
    exact h.symm
  · rfl

/-- Put `v` under `k`. -/
def set (m : KeyMap κ β) (k : κ) (v : β) : KeyMap κ β :=
  if h : k ∈ m.keys then
    { entries := m.entries.map (replace k v)
      nodup := by
        have hfst : (Prod.fst ∘ replace k v : κ × β → κ) = Prod.fst := funext (replace_fst k v)
        rw [map_map, hfst]
        exact m.nodup }
  else
    { entries := m.entries ++ [(k, v)]
      nodup := by
        rw [map_append, nodup_append]
        refine ⟨m.nodup, nodup_singleton k, ?_⟩
        rintro a ha b hb rfl
        obtain rfl : a = k := mem_singleton.1 hb
        exact h ha }

/-- Take `k` out. -/
def erase (m : KeyMap κ β) (k : κ) : KeyMap κ β where
  entries := m.entries.filter fun e => e.1 ≠ k
  nodup := m.nodup.sublist (filter_sublist.map Prod.fst)

/-! ### Reading -/

variable {m : KeyMap κ β}

/-- A lookup finds an entry. -/
theorem lookup_eq_some {k : κ} {v : β} : m.lookup k = some v ↔ (k, v) ∈ m.entries := by
  obtain ⟨l, hl⟩ := m
  simp only [lookup, Option.map_eq_some_iff]
  constructor
  · rintro ⟨⟨k', v'⟩, he, rfl⟩
    have hk : k' = k := by simpa using find?_some he
    exact hk ▸ mem_of_find?_eq_some he
  · intro hmem
    obtain ⟨e, he⟩ : ∃ e, l.find? (fun e => e.1 = k) = some e := by
      rw [← Option.isSome_iff_exists, find?_isSome]
      exact ⟨(k, v), hmem, by simp⟩
    have hk : e.1 = k := by simpa using find?_some he
    have heq : e = (k, v) := inj_on_of_nodup_map hl (mem_of_find?_eq_some he) hmem hk
    exact ⟨e, he, by rw [heq]⟩

@[simp] theorem lookup_empty (k : κ) : (empty : KeyMap κ β).lookup k = none := rfl

variable (m)

/-- A set changes one key. -/
theorem lookup_set (k k' : κ) (v : β) :
    (m.set k v).lookup k' = if k' = k then some v else m.lookup k' := by
  ext w
  rw [lookup_eq_some]
  by_cases hin : k ∈ m.keys
  · simp only [set, hin, dif_pos, mem_map]
    constructor
    · rintro ⟨⟨j, u⟩, he, hr⟩
      by_cases hj : j = k
      · subst hj
        simp only [replace, if_true, Prod.mk.injEq] at hr
        obtain ⟨rfl, rfl⟩ := hr
        simp
      · simp only [replace, hj, if_false, Prod.mk.injEq] at hr
        obtain ⟨rfl, rfl⟩ := hr
        simpa [hj] using lookup_eq_some.2 he
    · by_cases hk : k' = k
      · subst hk
        rw [if_pos rfl]
        rintro ⟨⟩
        obtain ⟨⟨j, u⟩, he, rfl⟩ := mem_map.1 hin
        exact ⟨(j, u), he, by simp [replace]⟩
      · rw [if_neg hk]
        intro hw
        exact ⟨(k', w), lookup_eq_some.1 hw, by simp [replace, hk]⟩
  · simp only [set, hin, dif_neg, not_false_eq_true, mem_append, mem_singleton, Prod.mk.injEq]
    by_cases hk : k' = k
    · subst hk
      have hnot : (k', w) ∉ m.entries := fun h => hin (mem_map.2 ⟨_, h, rfl⟩)
      simp [hnot, eq_comm]
    · simp [hk, lookup_eq_some]

theorem lookup_erase (k k' : κ) :
    (m.erase k).lookup k' = if k' = k then none else m.lookup k' := by
  ext w
  rw [lookup_eq_some]
  by_cases hk : k' = k
  · subst hk
    simp [erase]
  · simp [erase, hk, lookup_eq_some]

theorem lookup_erase_self (k : κ) : (m.erase k).lookup k = none := by
  rw [lookup_erase, if_pos rfl]

theorem lookup_erase_of_ne {k k' : κ} (h : k' ≠ k) :
    (m.erase k).lookup k' = m.lookup k' := by
  rw [lookup_erase, if_neg h]

def eraseAll (ks : List κ) : KeyMap κ β := ks.foldl erase m

variable {m}

variable {w : β}

theorem lookup_set_eq_some {k k' : κ} {v : β} :
    (m.set k v).lookup k' = some w ↔ k' = k ∧ v = w ∨ k' ≠ k ∧ m.lookup k' = some w := by
  rw [lookup_set]
  split <;> simp [*]

theorem lookup_erase_eq_some {k k' : κ} :
    (m.erase k).lookup k' = some w ↔ k' ≠ k ∧ m.lookup k' = some w := by
  rw [lookup_erase, Option.ite_none_left_eq_some]

theorem lookup_eraseAll (ks : List κ) (k : κ) :
    (m.eraseAll ks).lookup k = if k ∈ ks then none else m.lookup k := by
  induction ks generalizing m with
  | nil => simp only [eraseAll, foldl_nil, not_mem_nil, if_false]
  | cons k₀ ks ih =>
    have h : (m.eraseAll (k₀ :: ks)).lookup k = ((m.erase k₀).eraseAll ks).lookup k := rfl
    rw [h, ih, lookup_erase]
    by_cases hks : k ∈ ks
    · simp [hks]
    · simp [hks]

/-- Every value changed by `f`. -/
def map {γ : Type*} (f : β → γ) (m : KeyMap κ β) : KeyMap κ γ where
  entries := m.entries.map fun e => (e.1, f e.2)
  nodup := by
    rw [map_map]
    exact m.nodup

theorem lookup_map {γ : Type*} (f : β → γ) (k : κ) : (m.map f).lookup k = (m.lookup k).map f := by
  simp only [lookup, map, find?_map, Option.map_map]
  rfl

/-! ### Sizes -/

omit [DecidableEq κ] in
theorem length_keys : m.keys.length = m.size := length_map ..

theorem mem_keys {k : κ} : k ∈ m.keys ↔ (m.lookup k).isSome := by
  constructor
  · intro hk
    obtain ⟨⟨k', v⟩, he, rfl⟩ := mem_map.1 hk
    rw [lookup_eq_some.2 he]
    rfl
  · intro hk
    obtain ⟨v, hv⟩ := Option.isSome_iff_exists.1 hk
    exact mem_map.2 ⟨(k, v), lookup_eq_some.1 hv, rfl⟩

variable (m)

/-- A key that is set adds at most itself. -/
theorem size_set (k : κ) (v : β) :
    (m.set k v).size = if (m.lookup k).isSome then m.size else m.size + 1 := by
  by_cases hk : k ∈ m.keys
  · rw [if_pos (mem_keys.1 hk), set, dif_pos hk]
    exact length_map ..
  · rw [if_neg fun h => hk (mem_keys.2 h), set, dif_neg hk]
    exact length_append

theorem keys_set (k : κ) (v : β) :
    (m.set k v).keys = if (m.lookup k).isSome then m.keys else m.keys ++ [k] := by
  by_cases hk : k ∈ m.keys
  · rw [if_pos (mem_keys.1 hk), set, dif_pos hk]
    exact (map_map ..).trans (map_congr_left fun e _ => replace_fst k v e)
  · rw [if_neg fun h => hk (mem_keys.2 h), set, dif_neg hk]
    exact map_append

theorem keys_erase (k : κ) : (m.erase k).keys = m.keys.erase k := by
  refine Eq.trans ?_ (m.nodup.erase_eq_filter k).symm
  simp only [keys, erase, filter_map]
  refine congrArg _ (filter_congr fun e _ => ?_)
  by_cases h : e.1 = k <;> simp [h]

variable {m}

/-- Distinct keys of a map are at most as many as it holds. -/
theorem length_le_size {ks : List κ} (hnodup : ks.Nodup)
    (h : ∀ k ∈ ks, (m.lookup k).isSome) : ks.length ≤ m.size := by
  rw [← length_keys]
  exact (subperm_of_subset hnodup fun k hk => mem_keys.2 (h k hk)).length_le

/-- Where the keys of one map are keys of another, the other holds those and the rest. -/
theorem size_eq_add {γ : Type*} {n : KeyMap κ γ}
    (h : ∀ k, (n.lookup k).isSome → (m.lookup k).isSome) :
    m.size = (m.keys.filter fun k => (n.lookup k).isNone).length + n.size := by
  have hperm : (m.keys.filter fun k => (n.lookup k).isSome).Perm n.keys := by
    refine (perm_ext_iff_of_nodup (m.nodup.filter _) n.nodup).2 fun k => ?_
    change k ∈ m.keys.filter _ ↔ k ∈ n.keys
    rw [mem_filter, mem_keys, mem_keys]
    exact ⟨fun hk => hk.2, fun hk => ⟨h k hk, hk⟩⟩
  have hsplit := length_eq_length_filter_add (l := m.keys) fun k => (n.lookup k).isSome
  rw [hperm.length_eq, length_keys, length_keys] at hsplit
  simp only [Option.not_isSome] at hsplit
  omega

/-! ### Filling a map -/

theorem entries_set_of_not_mem {k : κ} (v : β) (h : k ∉ m.keys) :
    (m.set k v).entries = m.entries ++ [(k, v)] := by
  rw [set, dif_neg h]

/-- Setting distinct new keys, one after the other, appends their entries. -/
theorem entries_foldl_set {l : List (κ × β)} (h : ((m.entries ++ l).map Prod.fst).Nodup) :
    (l.foldl (fun m e => m.set e.1 e.2) m).entries = m.entries ++ l := by
  induction l generalizing m with
  | nil => rw [foldl_nil, append_nil]
  | cons e l ih =>
    have hnew : e.1 ∉ m.keys := by
      rw [map_append, map_cons, nodup_middle, nodup_cons, mem_append] at h
      exact fun hmem => h.1 (.inl hmem)
    have hset : (m.set e.1 e.2).entries ++ l = m.entries ++ e :: l := by
      rw [entries_set_of_not_mem e.2 hnew, append_assoc, singleton_append]
    rw [foldl_cons, ih (hset ▸ h), hset]

/-- A map is filled from its entries. -/
theorem foldl_set_entries (m : KeyMap κ β) :
    m.entries.foldl (fun m e => m.set e.1 e.2) empty = m := by
  have hentries : (m.entries.foldl (fun m e => m.set e.1 e.2) empty).entries = m.entries :=
    entries_foldl_set m.nodup
  obtain ⟨entries, nodup⟩ := m
  exact (mk.injEq ..).mpr hentries

/-! ### Sums -/

variable {M : Type*} [AddCommMonoid M]

/-- The sum of the values, each taken by `f`. -/
def sum (f : β → M) (m : KeyMap κ β) : M := (m.entries.map fun e => f e.2).sum

theorem lookup_eq_none {k : κ} : m.lookup k = none ↔ k ∉ m.keys := by
  rw [mem_keys, Option.not_isSome_iff_eq_none]

/-- The entry of a key that is there, between entries of other keys. -/
theorem entries_of_lookup {k : κ} (h : m.lookup k = some w) :
    ∃ pre post, m.entries = pre ++ (k, w) :: post ∧ k ∉ pre.map Prod.fst ∧
      k ∉ post.map Prod.fst := by
  obtain ⟨pre, post, hsplit⟩ := append_of_mem (lookup_eq_some.1 h)
  have hnodup := m.nodup
  rw [hsplit, map_append, map_cons, nodup_middle, nodup_cons, mem_append] at hnodup
  exact ⟨pre, post, hsplit, fun hp => hnodup.1 (.inl hp), fun hp => hnodup.1 (.inr hp)⟩

/-- Setting a key that is there replaces its entry, and no other. -/
theorem set_entries_of_lookup {k : κ} (v : β) (h : m.lookup k = some w) :
    ∃ pre post, m.entries = pre ++ (k, w) :: post ∧ (m.set k v).entries = pre ++
      (k, v) :: post := by
  have hk : k ∈ m.keys := mem_map.2 ⟨(k, w), lookup_eq_some.1 h, rfl⟩
  obtain ⟨pre, post, hsplit, hpre, hpost⟩ := entries_of_lookup h
  have hfix : ∀ l : List (κ × β), k ∉ l.map Prod.fst → l.map (replace k v) = l := by
    intro l hl
    refine (map_congr_left fun e he => if_neg fun hek => hl ?_).trans (map_id l)
    exact mem_map.2 ⟨e, he, hek⟩
  have hset : (m.set k v).entries = m.entries.map (replace k v) := by rw [set, dif_pos hk]
  refine ⟨pre, post, hsplit, ?_⟩
  rw [hset, hsplit, map_append, map_cons, hfix pre hpre, hfix post hpost, replace, if_pos rfl]

/-- Erasing a key takes its entry out, and no other. -/
theorem erase_entries_of_lookup {k : κ} (h : m.lookup k = some w) :
    ∃ pre post, m.entries = pre ++ (k, w) :: post ∧ (m.erase k).entries = pre ++ post := by
  obtain ⟨pre, post, hsplit, hpre, hpost⟩ := entries_of_lookup h
  have hkeep : ∀ l : List (κ × β), k ∉ l.map Prod.fst → l.filter (fun e => e.1 ≠ k) = l := by
    intro l hl
    refine filter_eq_self.2 fun e he => decide_eq_true fun hek => hl ?_
    exact mem_map.2 ⟨e, he, hek⟩
  have herase : (m.erase k).entries = m.entries.filter fun e => e.1 ≠ k := rfl
  refine ⟨pre, post, hsplit, ?_⟩
  rw [herase, hsplit, filter_append, filter_cons_of_neg (by simp), hkeep pre hpre, hkeep post hpost]

/-- The sum after setting a key, with what was under the key before. -/
theorem sum_set (f : β → M) (m : KeyMap κ β) (k : κ) (v : β) :
    (m.set k v).sum f + ((m.lookup k).map f).getD 0 = m.sum f + f v := by
  cases hk : m.lookup k with
  | none =>
    have hkeys : k ∉ m.keys := lookup_eq_none.1 hk
    simp [sum, set, hkeys]
  | some =>
    obtain ⟨pre, post, hm, hset⟩ := set_entries_of_lookup v hk
    simp only [sum, hm, hset, map_append, map_cons, sum_append, sum_cons,
      Option.map_some, Option.getD_some]
    ac_rfl

/-- The sum after erasing a key that is there. -/
theorem sum_erase (f : β → M) {k : κ} (h : m.lookup k = some w) :
    m.sum f = (m.erase k).sum f + f w := by
  obtain ⟨pre, post, hm, herase⟩ := erase_entries_of_lookup h
  simp only [sum, hm, herase, map_append, map_cons, sum_append, sum_cons]
  ac_rfl

end KeyMap

/-- What a table has after one entry of it was set. -/
theorem update_eq_some {κ β : Type*} [DecidableEq κ] {f : κ → Option β} {k k' : κ} {x y : β} :
    Function.update f k (some x) k' = some y ↔ k' = k ∧ x = y ∨ k' ≠ k ∧ f k' = some y := by
  rw [Function.update_apply]
  split <;> simp [*]

end Agnosai
