import Annealing.Register
import Annealing.Proofs.FloatOrder

/-!
# The register only improves

A register changes in one way: `store`, reached through `commit` under the lock, or through
`offer`, which adds the NaN check and the comparison with the register's energy that a
caller makes before taking the lock. This file reads both off the code once
(`commit_eq`, `offer_eq`) and derives the rest from those two equations.

Two facts carry everything later. First, `offer` is the lock-only call: the early refusal of
an energy above the register's never refuses what the comparison under the lock would take
(`offer_eq_lockOnly`), and neither does the guard a worker or the engine puts in front of the
call (`guard_offer`). Second, every register reached by offers is `Valid`: its history
strictly falls, holds no NaN, is empty exactly when the register is, and ends with the stored
energy. From these the register's energy never rises (`offer_bestEnergy_le`) and, once an
energy has been offered, it stays at or below that energy (`offer_bestEnergy_le_energy`).

Both rest on the IEEE order being a total preorder off NaN: a stored energy is never NaN, so
"not at or below" and "strictly above" coincide for it.
-/

namespace Annealing

/-- Energies that strictly fall, oldest first. -/
def Falling (xs : List Float) : Prop :=
  xs.Pairwise fun a b => b < a

namespace Register

variable {S : Type}

/-! ## Reading a register -/

@[simp] theorem empty_best : (empty : Register S).best = none := rfl

@[simp] theorem empty_history : (empty : Register S).history = #[] := rfl

@[simp] theorem store_best (r : Register S) (e : Float) (s : S) :
    (r.store e s).best = some (s, e) := rfl

@[simp] theorem store_history (r : Register S) (e : Float) (s : S) :
    (r.store e s).history = r.history.push e := rfl

@[simp] theorem bestEnergy_store (r : Register S) (e : Float) (s : S) :
    (r.store e s).bestEnergy = e := rfl

theorem bestEnergy_of_best {r : Register S} {s : S} {e : Float} (h : r.best = some (s, e)) :
    r.bestEnergy = e := by
  simp [bestEnergy, h]

theorem bestEnergy_of_none {r : Register S} (h : r.best = none) :
    r.bestEnergy = 1.0 / 0.0 := by
  simp [bestEnergy, h]

/-! ## What `commit` and `offer` do -/

/-- Under the lock a register takes the offer when it is empty or when its energy is not at
or below the offered one. A NaN is not at or below anything, so `commit` alone would take
it. -/
theorem commit_eq (r : Register S) (e : Float) (s : S) :
    r.commit e s =
      if r.best = none ∨ ¬ r.bestEnergy ≤ e then (true, r.store e s) else (false, r) := by
  unfold commit
  rcases h : r.best with _ | ⟨s', e'⟩
  · simp
  · rw [bestEnergy_of_best h]
    by_cases hle : e' ≤ e
    · have hge : e ≥ e' := hle
      simp [hge]
    · have hge : ¬ e ≥ e' := hle
      simp [hge]

/-- An offer is taken exactly when its energy is no NaN and the register is empty or the
energy is strictly below the stored one. -/
theorem offer_eq {r : Register S} (hr : r.bestEnergy.isNaN = false) (e : Float) (s : S) :
    r.offer e s =
      if e.isNaN = false ∧ (r.best = none ∨ e < r.bestEnergy) then (true, r.store e s)
      else (false, r) := by
  unfold offer
  cases he : e.isNaN
  · by_cases habove : e > r.bestEnergy
    · -- an energy above the register's: the register is filled, and nothing is taken
      have hfilled : r.best ≠ none := fun h =>
        Float.not_inf_lt e (bestEnergy_of_none h ▸ habove)
      have hnot : ¬ e < r.bestEnergy := Float.not_lt_of_le (Float.le_of_lt habove)
      simp [habove, hfilled, hnot]
    · rw [commit_eq]
      have hiff : ¬ r.bestEnergy ≤ e ↔ e < r.bestEnergy :=
        ⟨Float.lt_of_not_le hr he, Float.not_le_of_lt⟩
      simp [habove, hiff]
  · simp

/-- The refusal of an energy above the register's, made before the lock, changes nothing:
an offer is the NaN check followed by the comparison under the lock. -/
theorem offer_eq_lockOnly {r : Register S} (hr : r.bestEnergy.isNaN = false) (e : Float)
    (s : S) : r.offer e s = if e.isNaN then (false, r) else r.commit e s := by
  rw [offer_eq hr, commit_eq]
  cases he : e.isNaN
  · have hiff : ¬ r.bestEnergy ≤ e ↔ e < r.bestEnergy :=
      ⟨Float.lt_of_not_le hr he, Float.not_le_of_lt⟩
    simp [hiff]
  · simp

/-- A guard that offers only an energy at or below the register's, as a worker's publication
and the engine's reconciliation do, refuses nothing that the offer would take. -/
theorem guard_offer {r : Register S} (hr : r.bestEnergy.isNaN = false) (e : Float) (s : S) :
    (if e ≤ r.bestEnergy then (r.offer e s).2 else r) = (r.offer e s).2 := by
  split
  · rfl
  · next hle =>
      rw [offer_eq hr]
      cases he : e.isNaN
      · -- an energy neither NaN nor at or below the register's is above it
        have habove : r.bestEnergy < e := Float.lt_of_not_le he hr hle
        have hfilled : r.best ≠ none := fun h =>
          Float.not_inf_lt e (bestEnergy_of_none h ▸ habove)
        simp [hfilled, Float.not_lt_of_le (Float.le_of_lt habove)]
      · simp

/-! ## Registers reached by offers -/

/-- What every register reached by offers satisfies. -/
structure Valid (r : Register S) : Prop where
  /-- The register is empty exactly when it has taken nothing. -/
  empty_iff : r.best = none ↔ r.history = #[]
  /-- The stored energy is the last one taken. -/
  last : ∀ s e, r.best = some (s, e) → r.history.back? = some e
  /-- Every improvement is strictly below the one before. -/
  falling : Falling r.history.toList
  /-- No NaN was ever taken. -/
  no_nan : ∀ e ∈ r.history, e.isNaN = false

theorem empty_valid : (empty : Register S).Valid where
  empty_iff := by simp
  last := by simp
  falling := List.Pairwise.nil
  no_nan := by simp

theorem Valid.bestEnergy_isNaN {r : Register S} (hr : r.Valid) :
    r.bestEnergy.isNaN = false := by
  rcases h : r.best with _ | ⟨s, e⟩
  · rw [bestEnergy_of_none h]
    exact Float.isNaN_inf
  · rw [bestEnergy_of_best h]
    exact hr.no_nan e (Array.mem_of_back? (hr.last s e h))

/-- Every energy taken is at or above the stored one, which was taken last. -/
theorem Valid.bestEnergy_le {r : Register S} (hr : r.Valid) {a : Float} (ha : a ∈ r.history) :
    r.bestEnergy ≤ a := by
  rcases h : r.best with _ | ⟨s, e⟩
  · simp [hr.empty_iff.1 h] at ha
  · rw [bestEnergy_of_best h]
    -- the history is some earlier improvements followed by the stored energy
    obtain ⟨init, hinit⟩ := Array.back?_eq_some_iff.1 (hr.last s e h)
    have hfall := hr.falling
    rw [hinit, Array.toList_push, Falling, List.pairwise_append] at hfall
    rw [hinit, Array.mem_push] at ha
    rcases ha with ha | rfl
    · exact Float.le_of_lt (hfall.2.2 a (Array.mem_toList_iff.2 ha) e (List.mem_singleton_self e))
    · exact Float.le_refl_of_isNaN_eq_false (hr.no_nan a (Array.mem_of_back? (hr.last s a h)))

theorem Valid.store {r : Register S} (hr : r.Valid) {e : Float} (s : S)
    (he : e.isNaN = false) (hlt : r.best = none ∨ e < r.bestEnergy) : (r.store e s).Valid where
  empty_iff := by simp
  last := by simp
  falling := by
    rw [store_history, Array.toList_push, Falling, List.pairwise_append]
    refine ⟨hr.falling, List.pairwise_singleton _ _, ?_⟩
    intro a ha b hb
    rw [List.mem_singleton] at hb
    subst hb
    rcases hlt with hnone | hlt
    · simp [hr.empty_iff.1 hnone] at ha
    · exact Float.lt_of_lt_of_le hlt (hr.bestEnergy_le (Array.mem_toList_iff.1 ha))
  no_nan := by
    intro a ha
    rcases Array.mem_push.1 ha with ha | rfl
    · exact hr.no_nan a ha
    · exact he

theorem Valid.offer {r : Register S} (hr : r.Valid) (e : Float) (s : S) :
    (r.offer e s).2.Valid := by
  rw [offer_eq hr.bestEnergy_isNaN]
  split
  · next h => exact hr.store s h.1 h.2
  · exact hr

/-! ## The energy only falls -/

theorem offer_bestEnergy_le {r : Register S} (hr : r.Valid) (e : Float) (s : S) :
    (r.offer e s).2.bestEnergy ≤ r.bestEnergy := by
  rw [offer_eq hr.bestEnergy_isNaN]
  split
  · next h =>
      rcases h with ⟨he, hnone | hlt⟩
      · rw [bestEnergy_store, bestEnergy_of_none hnone]
        exact Float.le_inf he
      · exact Float.le_of_lt hlt
  · exact Float.le_refl_of_isNaN_eq_false hr.bestEnergy_isNaN

theorem offer_bestEnergy_le_energy {r : Register S} (hr : r.Valid) {e : Float} (s : S)
    (he : e.isNaN = false) : (r.offer e s).2.bestEnergy ≤ e := by
  rw [offer_eq hr.bestEnergy_isNaN]
  split
  · exact Float.le_refl_of_isNaN_eq_false he
  · next h =>
      have hfilled : r.best ≠ none := fun hn => h ⟨he, Or.inl hn⟩
      exact Float.le_of_not_lt he hr.bestEnergy_isNaN fun hlt => h ⟨he, Or.inr hlt⟩

/-! ## Taken or refused

An offer stores the offered solution when its energy is no NaN and improves on the register's,
and otherwise leaves the register as it was. -/

theorem offer_filled {r : Register S} (hr : r.Valid) {e : Float} (s : S)
    (he : e.isNaN = false) : (r.offer e s).2.best ≠ none := by
  rw [offer_eq hr.bestEnergy_isNaN]
  split
  · simp
  · next h => exact fun hn => h ⟨he, Or.inl hn⟩

theorem offer_best {r : Register S} (hr : r.Valid) (e : Float) (s : S) :
    (r.offer e s).2.best = r.best ∨ (r.offer e s).2.best = some (s, e) := by
  rw [offer_eq hr.bestEnergy_isNaN]
  split
  · exact Or.inr rfl
  · exact Or.inl rfl

theorem offer_snd {r : Register S} (hr : r.Valid) (e : Float) (s : S) :
    (r.offer e s).2 = r ∨ (r.offer e s).2 = r.store e s := by
  rw [offer_eq hr.bestEnergy_isNaN]
  split
  · exact Or.inr rfl
  · exact Or.inl rfl

theorem offer_taken {r : Register S} (hr : r.Valid) {e : Float} {s : S}
    (h : (r.offer e s).1 = true) :
    e.isNaN = false ∧ (r.best = none ∨ e < r.bestEnergy) ∧ (r.offer e s).2 = r.store e s := by
  rw [offer_eq hr.bestEnergy_isNaN] at h ⊢
  split at h
  · next htake => exact ⟨htake.1, htake.2, by rw [if_pos htake]⟩
  · cases h

theorem offer_refused {r : Register S} (hr : r.Valid) {e : Float} {s : S}
    (h : (r.offer e s).1 = false) : (r.offer e s).2 = r := by
  rw [offer_eq hr.bestEnergy_isNaN] at h ⊢
  split at h
  · cases h
  · next hnot => rw [if_neg hnot]

/-! ## Covering an energy

A register covers an energy when it is filled and its energy is at or below it. Offers never
take this away, and an offer of an energy that is no NaN leaves it covered. -/

/-- The register is filled, with an energy at or below `e`. -/
def Covers (r : Register S) (e : Float) : Prop :=
  r.best ≠ none ∧ r.bestEnergy ≤ e

theorem Covers.trans {r : Register S} {a b : Float} (h : r.Covers a) (hab : a ≤ b) :
    r.Covers b :=
  ⟨h.1, Float.le_trans h.2 hab⟩

theorem Covers.offer {r : Register S} (hr : r.Valid) {a : Float} (h : r.Covers a) (e : Float)
    (s : S) : (r.offer e s).2.Covers a := by
  refine ⟨?_, Float.le_trans (offer_bestEnergy_le hr e s) h.2⟩
  rcases offer_best hr e s with hsame | hnew
  · rw [hsame]
    exact h.1
  · simp [hnew]

theorem offer_covers {r : Register S} (hr : r.Valid) {e : Float} (s : S)
    (he : e.isNaN = false) : (r.offer e s).2.Covers e :=
  ⟨offer_filled hr s he, offer_bestEnergy_le_energy hr s he⟩

theorem Covers.isNaN {r : Register S} {e : Float} (h : r.Covers e) : e.isNaN = false :=
  Float.isNaN_right_of_le h.2

theorem Covers.offer_eq {r : Register S} (hr : r.Valid) {e : Float} (h : r.Covers e) (s : S) :
    (r.offer e s).2 = r := by
  refine offer_refused hr (Bool.eq_false_iff.2 fun htake => ?_)
  rcases (offer_taken hr htake).2.1 with hnone | hlt
  · exact h.1 hnone
  · exact Float.not_lt_of_le h.2 hlt

end Register

end Annealing
