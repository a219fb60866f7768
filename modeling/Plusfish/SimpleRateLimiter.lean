import Plusfish.Library.Quota

open quota

namespace plusfish

structure SimpleRateLimiter where
  maxRate : Int
  usedInPeriod : Int := 0
  periodEnd : Int := 0

namespace SimpleRateLimiter

def kRatePeriod : Int := 1

/-- The constructor. -/
def new (ratePerSec : Int) : SimpleRateLimiter :=
  { maxRate := if ratePerSec ≤ 0 then 1 else ratePerSec }

def takeRateSlotWithTime (self : SimpleRateLimiter) (currentTimeSec : Int) :
    Bool × SimpleRateLimiter :=
  if currentTimeSec ≥ self.periodEnd then
    (true, { self with periodEnd := currentTimeSec + kRatePeriod, usedInPeriod := 1 })
  else if self.usedInPeriod < self.maxRate then
    (true, { self with usedInPeriod := self.usedInPeriod + 1 })
  else (false, self)

/-- The answers to calls at these times, one after the other. -/
def takeRateSlots : SimpleRateLimiter → (times : List Int) → List Bool
  | _, [] => []
  | self, time :: times =>
    (self.takeRateSlotWithTime time).1 :: takeRateSlots (self.takeRateSlotWithTime time).2 times

/-- The limiter after these calls. Once there was a call, the period is the second of the last
    one, and the slots used in it are those of the calls in it. -/
inductive Tracks (limit : ℕ) : (past : List Int) → SimpleRateLimiter → Prop
  | fresh : Tracks limit [] { maxRate := limit }
  | called {past : List Int} {last : Int} (hmem : last ∈ past)
      (hlast : ∀ time ∈ past, time ≤ last) :
      Tracks limit past
        { maxRate := limit, usedInPeriod := min (past.count last) limit, periodEnd := last + 1 }

/-- A call is granted if fewer calls than the limit came before it in its second. -/
theorem Tracks.takeRateSlotWithTime {limit : ℕ} {past : List Int} {self : SimpleRateLimiter}
    (h : Tracks limit past self) (hlimit : 0 < limit) {time : Int} (hnonneg : 0 ≤ time)
    (hpast : ∀ earlier ∈ past, earlier ≤ time) :
    (self.takeRateSlotWithTime time).1 = decide (past.count time < limit) ∧
      Tracks limit (past ++ [time]) (self.takeRateSlotWithTime time).2 := by
  have hlast : ∀ earlier ∈ past ++ [time], earlier ≤ time := by
    rw [List.forall_mem_append, List.forall_mem_singleton]
    exact ⟨hpast, Int.le_refl time⟩
  have hcalled : Tracks limit (past ++ [time])
      { maxRate := limit, usedInPeriod := min (past.count time + 1 : ℕ) limit,
        periodEnd := time + 1 } := by
    have hcount : (past ++ [time]).count time = past.count time + 1 := by
      rw [List.count_append, List.count_singleton_self]
    rw [← hcount]
    exact .called (List.mem_append_right past (List.mem_singleton_self time)) hlast
  -- In a new second no call came before.
  have hreset (hnew : ∀ earlier ∈ past, earlier < time) (self : SimpleRateLimiter)
      (hrate : self.maxRate = limit) (hend : self.periodEnd ≤ time) :
      (self.takeRateSlotWithTime time).1 = decide (past.count time < limit) ∧
        Tracks limit (past ++ [time]) (self.takeRateSlotWithTime time).2 := by
    have hnone : past.count time = 0 :=
      List.count_eq_zero.mpr fun hmem => absurd (hnew time hmem) (Int.lt_irrefl time)
    have hone : min ((past.count time + 1 : ℕ) : Int) limit = 1 := by omega
    rw [hone] at hcalled
    rw [SimpleRateLimiter.takeRateSlotWithTime, if_pos hend, hrate, hnone, decide_eq_true hlimit]
    exact ⟨rfl, hcalled⟩
  cases h with
  | fresh => exact hreset (fun _ hmem => absurd hmem List.not_mem_nil) _ rfl hnonneg
  | @called _ last hmem hlast =>
    by_cases hend : last + 1 ≤ time
    · exact hreset (fun earlier hearlier => Int.lt_of_le_of_lt (hlast earlier hearlier) hend) _ rfl
        hend
    · obtain rfl : last = time := Int.le_antisymm (hpast last hmem) (by omega)
      rw [SimpleRateLimiter.takeRateSlotWithTime, if_neg hend]
      dsimp only
      by_cases hroom : past.count last < limit
      · have hused : min (past.count last : Int) limit < limit := by omega
        have hnext : min (past.count last : Int) limit + 1 =
            min ((past.count last + 1 : ℕ) : Int) limit := by omega
        rw [if_pos hused, decide_eq_true hroom, hnext]
        exact ⟨rfl, hcalled⟩
      · have hused : ¬ min (past.count last : Int) limit < limit := by omega
        have hsame : min (past.count last : Int) limit =
            min ((past.count last + 1 : ℕ) : Int) limit := by omega
        rw [if_neg hused, decide_eq_false hroom, hsame]
        exact ⟨rfl, hcalled⟩

/-- The answers are those of the quota of each second. -/
theorem Tracks.takeRateSlots {limit : ℕ} {past times : List Int} {self : SimpleRateLimiter}
    (h : Tracks limit past self) (hlimit : 0 < limit) (hordered : times.Pairwise (· ≤ ·))
    (hnonneg : ∀ time ∈ times, 0 ≤ time)
    (hpast : ∀ earlier ∈ past, ∀ time ∈ times, earlier ≤ time) :
    self.takeRateSlots times = grants limit past times := by
  induction times generalizing past self with
  | nil => rfl
  | cons time times ih =>
    obtain ⟨hfirst, hrest⟩ := List.pairwise_cons.mp hordered
    obtain ⟨htaken, hnext⟩ := h.takeRateSlotWithTime hlimit (hnonneg time List.mem_cons_self)
      fun earlier hmem => hpast earlier hmem time List.mem_cons_self
    rw [SimpleRateLimiter.takeRateSlots, grants, htaken,
      ih hnext hrest fun later hmem => hnonneg later (List.mem_cons_of_mem _ hmem)]
    intro earlier hmem later hlater
    rcases List.mem_append.mp hmem with hold | hnew
    · exact hpast earlier hold later (List.mem_cons_of_mem _ hlater)
    · rw [List.mem_singleton.mp hnew]
      exact hfirst later hlater

/-- A limiter that was not asked yet. -/
theorem Tracks.new (ratePerSec : Int) :
    Tracks (max 1 ratePerSec).toNat [] (SimpleRateLimiter.new ratePerSec) := by
  have hnew : SimpleRateLimiter.new ratePerSec =
      { maxRate := ((max 1 ratePerSec).toNat : Int) } := by
    rw [SimpleRateLimiter.new]
    congr 1
    split <;> omega
  rw [hnew]
  exact .fresh

/-- In each second, as many calls are granted as the rate allows, which is at least one. -/
theorem takeRateSlots_granted (ratePerSec : Int) (times : List Int)
    (hordered : times.Pairwise (· ≤ ·)) (hnonneg : ∀ time ∈ times, 0 ≤ time) (time : Int) :
    (granted times ((new ratePerSec).takeRateSlots times) time : Int) =
      min (times.count time : Int) (max 1 ratePerSec) := by
  have hanswers : (new ratePerSec).takeRateSlots times = grants (max 1 ratePerSec).toNat [] times :=
    (Tracks.new ratePerSec).takeRateSlots (by omega) hordered hnonneg
      fun _ hmem => absurd hmem List.not_mem_nil
  rw [hanswers, granted_grants]
  omega

theorem takeRateSlots_granted_two :
    granted [3, 3, 3, 4, 6, 6] ((new 2).takeRateSlots [3, 3, 3, 4, 6, 6]) 3 = (2 : Int) :=
  takeRateSlots_granted 2 [3, 3, 3, 4, 6, 6] (by decide) (by decide) 3

end SimpleRateLimiter

end plusfish
