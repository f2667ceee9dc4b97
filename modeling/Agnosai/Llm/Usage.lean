import Mathlib.Algebra.Order.BigOperators.Group.List
import Mathlib.Algebra.Order.Ring.Int
import Agnosai.Llm.Hoosh

/-!
# Llm — Usage

What carrying usage from response to response comes to. `Carried rs r` says that `r` is the last
of the responses `rs` with the usage of the others carried to it, one way or another. The token
counts of `r` are then the sums over `rs`, in 64-bit arithmetic. Its cost is the sum of the costs
that were reported only as long as those are not negative and the sum fits: `-1` stands for no cost
at all.
-/

namespace Agnosai.Llm

open Response List Int64

/-- `r` is the last of the responses, with the usage of the others carried to it. -/
inductive Carried : List Response → Response → Prop where
  | one (r : Response) : Carried [r] r
  | carry {rs rs' : List Response} {r r' : Response} (h : Carried rs r) (h' : Carried rs' r') :
      Carried (rs ++ rs') (r'.carryUsage r)

/-- The cost a response reports, if it reports one. -/
def Response.reportedCost (r : Response) : Option Int :=
  if r.costMicroUsd = noLimit then none else some r.costMicroUsd.toInt

def reportedCosts (rs : List Response) : List Int := rs.filterMap reportedCost

/-- The sum of a 64-bit count over some responses. -/
def total (count : Response → Int64) (rs : List Response) : Int :=
  (rs.map fun r => (count r).toInt).sum

variable {rs rs' : List Response} {r r' : Response}

theorem total_append (count : Response → Int64) :
    total count (rs ++ rs') = total count rs + total count rs' := by
  simp [total]

/-- A count that carrying adds up is the sum. -/
theorem Carried.count {count : Response → Int64}
    (hcarry : ∀ r prior, count (r.carryUsage prior) = count r + count prior) (h : Carried rs r) :
    count r = ofInt (total count rs) := by
  induction h with
  | one => simp [total]
  | carry _ _ ih ih' => rw [hcarry, ih, ih', total_append, Int64.ofInt_add, Int64.add_comm]

theorem Carried.promptTokens (h : Carried rs r) :
    r.promptTokens = ofInt (total promptTokens rs) :=
  h.count fun _ _ => rfl

theorem Carried.completionTokens (h : Carried rs r) :
    r.completionTokens = ofInt (total completionTokens rs) :=
  h.count fun _ _ => rfl

theorem Carried.totalTokens (h : Carried rs r) :
    r.totalTokens = ofInt (total Response.totalTokens rs) := by
  refine h.count fun r prior => ?_
  simp only [Response.totalTokens, Response.carryUsage]
  ac_rfl

/-! ### Costs -/

/-- Adding costs, either of which may be missing. -/
def addCosts : Option Int → Option Int → Option Int
  | none, b => b
  | some a, none => some a
  | some a, some b => some (a + b)

theorem reportedCost_eq_some {c : Int} (h : r.reportedCost = some c) :
    r.costMicroUsd ≠ noLimit ∧ r.costMicroUsd.toInt = c := by
  unfold reportedCost at h
  split at h
  · cases h
  next hne =>
    exact ⟨hne, Option.some.inj h⟩

theorem reportedCost_eq_none (h : r.reportedCost = none) : r.costMicroUsd = noLimit := by
  unfold reportedCost at h
  split at h
  · assumption
  · cases h

/-- Carrying adds the costs, if they are not negative and the sum fits. -/
theorem carryUsage_reportedCost (hr : ∀ c ∈ r.reportedCost, 0 ≤ c)
    (hr' : ∀ c ∈ r'.reportedCost, 0 ≤ c)
    (hfits : ∀ c ∈ addCosts r.reportedCost r'.reportedCost, c < 2 ^ 63) :
    (r'.carryUsage r).reportedCost = addCosts r.reportedCost r'.reportedCost := by
  cases hcost : r.reportedCost with
  | none =>
    simp only [reportedCost, carryUsage, carryCost, reportedCost_eq_none hcost, if_true, addCosts]
  | some a =>
    obtain ⟨hne, ha⟩ := reportedCost_eq_some hcost
    cases hcost' : r'.reportedCost with
    | none =>
      have hnone := reportedCost_eq_none hcost'
      simp [reportedCost, carryUsage, carryCost, hne, hnone, ha, addCosts]
    | some b =>
      obtain ⟨hne', hb⟩ := reportedCost_eq_some hcost'
      have ha₀ : 0 ≤ a := hr a hcost
      have hb₀ : 0 ≤ b := hr' b hcost'
      have hlt : a + b < 2 ^ 63 := hfits (a + b) (by rw [hcost, hcost']; rfl)
      have hsum : (r'.costMicroUsd + r.costMicroUsd).toInt = a + b := by
        rw [toInt_add, ha, hb, add_comm]
        exact Int.bmod_eq_of_le (by omega) (by omega)
      -- a sum that is not negative is not the one that reads as no cost
      have hsum' : r'.costMicroUsd + r.costMicroUsd ≠ noLimit := by
        intro heq
        rw [heq] at hsum
        have hneg : noLimit.toInt = -1 := by decide
        omega
      simp [reportedCost, carryUsage, carryCost, hne, hne', hsum, hsum', addCosts]

/-- The sum of the costs reported, if any was. -/
def costOf (rs : List Response) : Option Int :=
  if reportedCosts rs = [] then none else some (reportedCosts rs).sum

theorem costOf_append : costOf (rs ++ rs') = addCosts (costOf rs) (costOf rs') := by
  have happend : reportedCosts (rs ++ rs') = reportedCosts rs ++ reportedCosts rs' :=
    filterMap_append
  unfold costOf
  rw [happend]
  by_cases h : reportedCosts rs = []
  · simp [h, addCosts]
  · by_cases h' : reportedCosts rs' = []
    · simp [h, h', addCosts]
    · simp [h, h', addCosts]

theorem costOf_singleton : costOf [r] = r.reportedCost := by
  cases h : r.reportedCost <;> simp [costOf, reportedCosts, h]

theorem eq_sum_of_mem_costOf {c : Int} (hc : c ∈ costOf rs) : c = (reportedCosts rs).sum := by
  unfold costOf at hc
  split at hc
  · cases hc
  · cases hc
    rfl

theorem costOf_nonneg (h : ∀ c ∈ reportedCosts rs, 0 ≤ c) : ∀ c ∈ costOf rs, 0 ≤ c := by
  intro c hc
  rw [eq_sum_of_mem_costOf hc]
  exact sum_nonneg h

/-- The cost is the sum of the costs reported, if none is negative and the sum fits. -/
theorem Carried.reportedCost (h : Carried rs r) (hnonneg : ∀ c ∈ reportedCosts rs, 0 ≤ c)
    (hfits : (reportedCosts rs).sum < 2 ^ 63) : r.reportedCost = costOf rs := by
  induction h with
  | one r => exact costOf_singleton.symm
  | @carry rs rs' r r' _ _ ih ih' =>
    have happend : reportedCosts (rs ++ rs') = reportedCosts rs ++ reportedCosts rs' :=
      filterMap_append
    rw [happend] at hnonneg hfits
    rw [sum_append] at hfits
    have hrs : ∀ c ∈ reportedCosts rs, 0 ≤ c := fun c hc => hnonneg c (mem_append_left _ hc)
    have hrs' : ∀ c ∈ reportedCosts rs', 0 ≤ c := fun c hc => hnonneg c (mem_append_right _ hc)
    have hsum := sum_nonneg hrs
    have hsum' := sum_nonneg hrs'
    have hcost := ih hrs (by omega)
    have hcost' := ih' hrs' (by omega)
    rw [costOf_append, ← hcost, ← hcost']
    refine carryUsage_reportedCost ?_ ?_ ?_
    · rw [hcost]
      exact costOf_nonneg hrs
    · rw [hcost']
      exact costOf_nonneg hrs'
    · rw [hcost, hcost', ← costOf_append]
      intro c hc
      rw [eq_sum_of_mem_costOf hc, happend, sum_append]
      exact hfits

end Agnosai.Llm
