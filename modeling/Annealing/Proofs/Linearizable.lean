import Annealing.Proofs.Register

/-!
# Threads see a lock-only register

Threads call the register in small steps: a guard that reads the mirror (for a worker's
publication or the engine's reconciliation), the NaN check, the unlocked read of the mirror,
and the compare-and-update under the lock. Another thread may act between any two of them.
The early refusals read the mirror outside the lock, so they may read it late; what makes
them safe is that the mirror only falls and always equals the slot's energy once the lock is
released. An energy found above the mirror is then above the slot's energy at the read and
at every later moment, and the comparison under the lock would refuse it too.

So each step of a call either changes nothing that can be seen from outside the call (a
check that passes) or is the whole lock-only call made at once (`Register.lockOnly`: the NaN
check, then `commit`). `Call.step_refines` says this of one step; `Mirrored.run_spec` lifts
it to every interleaving, a forward simulation in which the threads' run is matched by a run
of the lock-only register where each call is one atomic step, with the same answers and the
same slot. What the lock-only run answers (`Call.Answered`) then carries over, and
`Mirrored.register_linearizable` gathers it: once every call has answered, the register holds
the least energy offered.

A reset is not a step here: `Mirrored.register_linearizable` covers every call made after a
reset, from the empty register, up to the next reset. That is how the engine uses the register:
it resets it only before its workers start, when no call is in flight.
-/

namespace Annealing

variable {S : Type}

namespace Register

/-- `tryImprove` without the unlocked early refusal: the NaN check, then the compare-and-update
under the lock. -/
def lockOnly (r : Register S) (e : Float) (s : S) : Bool × Register S :=
  if e.isNaN then (false, r) else r.commit e s

theorem lockOnly_eq_offer {r : Register S} (hr : r.Valid) (e : Float) (s : S) :
    r.lockOnly e s = r.offer e s :=
  (offer_eq_lockOnly hr.bestEnergy_isNaN e s).symm

theorem lockOnly_of_not_le {r : Register S} (hr : r.Valid) {e : Float} (s : S)
    (h : ¬ e ≤ r.bestEnergy) : r.lockOnly e s = (false, r) := by
  rw [lockOnly_eq_offer hr, offer_eq hr.bestEnergy_isNaN]
  split
  · next htake =>
      -- a taken offer is at or below the register's energy, which the guard ruled out
      exfalso
      rcases htake with ⟨he, hnone | hlt⟩
      · exact h (bestEnergy_of_none hnone ▸ Float.le_inf he)
      · exact h (Float.le_of_lt hlt)
  · rfl

end Register

/-! ## The two copies of the energy -/

/-- The mirror equals the slot's energy, and the slot is one that offers reach. -/
structure Mirrored.Coherent (m : Mirrored S) : Prop where
  mirror_eq : m.mirror = m.slot.bestEnergy
  valid : m.slot.Valid

theorem Mirrored.empty_coherent : (Mirrored.empty : Mirrored S).Coherent :=
  ⟨rfl, Register.empty_valid⟩

namespace Call

/-- A call seen from outside: the offer it has still to make, or its answer. -/
def view : Call S → (Float × S) ⊕ Bool
  | .guarded e s | .start e s | .checked e s | .locking e s => .inl (e, s)
  | .returned taken => .inr taken

/-- A call past its NaN check carries no NaN. -/
def Ready : Call S → Prop
  | .checked e _ | .locking e _ => e.isNaN = false
  | .guarded .. | .start .. | .returned _ => True

/-- A new call: a guarded offer, or a plain `tryImprove`. -/
def fresh (guarded : Bool) (e : Float) (s : S) : Call S :=
  if guarded then .guarded e s else .start e s

theorem fresh_ready (guarded : Bool) (e : Float) (s : S) : (fresh guarded e s).Ready := by
  cases guarded <;> trivial

@[simp] theorem view_fresh (guarded : Bool) (e : Float) (s : S) :
    (fresh guarded e s).view = .inl (e, s) := by
  cases guarded <;> rfl

/-- A call made at once on the lock-only register. -/
def lockOnlyStep (r : Register S) : (Float × S) ⊕ Bool → ((Float × S) ⊕ Bool) × Register S
  | .inl (e, s) => (.inr (r.lockOnly e s).1, (r.lockOnly e s).2)
  | .inr taken => (.inr taken, r)

theorem lockOnlyStep_refused {r : Register S} {e : Float} {s : S}
    (h : r.lockOnly e s = (false, r)) : lockOnlyStep r (.inl (e, s)) = (.inr false, r) := by
  simp [lockOnlyStep, h]

/-- One step of a call keeps the register coherent and the call ready, and is either
invisible from outside the call or the lock-only call made at once. -/
theorem step_refines {m : Mirrored S} (hm : m.Coherent) {c : Call S} (hc : c.Ready) :
    (c.step m).2.Coherent ∧ (c.step m).1.Ready ∧
      (((c.step m).1.view, (c.step m).2.slot) = (c.view, m.slot) ∨
        ((c.step m).1.view, (c.step m).2.slot) = lockOnlyStep m.slot c.view) := by
  have hvalid := hm.valid
  cases c with
  | guarded e s =>
      simp only [step]
      split
      · exact ⟨hm, trivial, .inl rfl⟩
      · next hle =>
          -- the guard refuses only what the lock-only call refuses
          rw [hm.mirror_eq] at hle
          refine ⟨hm, trivial, .inr ?_⟩
          rw [view, lockOnlyStep_refused (Register.lockOnly_of_not_le hvalid s hle)]
          rfl
  | start e s =>
      simp only [step]
      split
      · next hnan =>
          refine ⟨hm, trivial, .inr ?_⟩
          simp only [view, lockOnlyStep, Register.lockOnly, hnan, ↓reduceIte]
      · next hnan =>
          exact ⟨hm, by simpa [Ready] using hnan, .inl rfl⟩
  | checked e s =>
      simp only [step]
      split
      · next habove =>
          -- the unlocked read refuses only what the lock-only call refuses
          rw [hm.mirror_eq] at habove
          refine ⟨hm, trivial, .inr ?_⟩
          rw [view, lockOnlyStep_refused
            (Register.lockOnly_of_not_le hvalid s (Float.not_le_of_lt habove))]
          rfl
      · exact ⟨hm, hc, .inl rfl⟩
  | locking e s =>
      have he : e.isNaN = false := hc
      have hlock : m.slot.lockOnly e s = m.slot.commit e s := by
        simp only [Register.lockOnly, he, Bool.false_eq_true, ↓reduceIte]
      by_cases htake : m.slot.best = none ∨ ¬ m.slot.bestEnergy ≤ e
      · -- the critical section stores the energy in the slot and in the mirror
        have hcommit : m.slot.commit e s = (true, m.slot.store e s) := by
          rw [Register.commit_eq, if_pos htake]
        have hlt : m.slot.best = none ∨ e < m.slot.bestEnergy := by
          rcases htake with hnone | hnle
          · exact .inl hnone
          · exact .inr (Float.lt_of_not_le hvalid.bestEnergy_isNaN he hnle)
        simp only [step, hcommit]
        refine ⟨⟨rfl, hvalid.store s he hlt⟩, trivial, .inr ?_⟩
        simp [view, lockOnlyStep, hlock, hcommit]
      · have hcommit : m.slot.commit e s = (false, m.slot) := by
          rw [Register.commit_eq, if_neg htake]
        simp only [step, hcommit]
        refine ⟨hm, trivial, .inr ?_⟩
        simp [view, lockOnlyStep, hlock, hcommit]
  | returned taken =>
      exact ⟨hm, trivial, .inl rfl⟩

theorem step_mirror_le {m : Mirrored S} (hm : m.Coherent) {c : Call S} (hc : c.Ready) :
    (c.step m).2.mirror ≤ m.mirror := by
  obtain ⟨hm', -, hstep⟩ := step_refines hm hc
  rw [hm'.mirror_eq, hm.mirror_eq]
  rcases hstep with h | h
  · rw [(Prod.mk.inj h).2]
    exact Float.le_refl_of_isNaN_eq_false hm.valid.bestEnergy_isNaN
  · rw [(Prod.mk.inj h).2]
    cases hv : c.view with
    | inl p =>
        obtain ⟨e, s⟩ := p
        show (m.slot.lockOnly e s).2.bestEnergy ≤ _
        rw [Register.lockOnly_eq_offer hm.valid]
        exact Register.offer_bestEnergy_le hm.valid e s
    | inr taken =>
        exact Float.le_refl_of_isNaN_eq_false hm.valid.bestEnergy_isNaN

/-- Call `i` made at once on the lock-only register, if there is such a call. -/
def lockOnlyAt (i : Nat) (st : Register S × Array ((Float × S) ⊕ Bool)) :
    Register S × Array ((Float × S) ⊕ Bool) :=
  if h : i < st.2.size then
    let next := lockOnlyStep st.1 st.2[i]
    (next.2, st.2.set i next.1)
  else st

/-- The lock-only register with the calls made at once in the order `schedule` names them. -/
def lockOnlyRun (schedule : List Nat) (r : Register S) (views : Array ((Float × S) ⊕ Bool)) :
    Register S × Array ((Float × S) ⊕ Bool) :=
  schedule.foldl (fun st i => lockOnlyAt i st) (r, views)

end Call

/-! ## What the lock-only register answers

Run one offer at a time, the lock-only register ends with the least energy offered. The
invariant `Call.Answered` says this of every point of the run, for the offers answered so
far. -/

namespace Call

/-- A lock-only run against the offers it started from: each call still holds its offer or
has answered; an answered offer is NaN or at or above the filled register's energy; and the
register holds one of the offers. -/
structure Answered (offers : Array (Float × S)) (st : Register S × Array ((Float × S) ⊕ Bool)) :
    Prop where
  valid : st.1.Valid
  size_eq : st.2.size = offers.size
  each : ∀ i (hv : i < st.2.size) (ho : i < offers.size),
    st.2[i] = .inl offers[i] ∨ (∃ b, st.2[i] = .inr b) ∧
      (offers[i].1.isNaN = true ∨ st.1.Covers offers[i].1)
  stored : ∀ s e, st.1.best = some (s, e) → (e, s) ∈ offers

theorem answered_start (offers : Array (Float × S)) :
    Answered offers (Register.empty, offers.map .inl) where
  valid := Register.empty_valid
  size_eq := Array.size_map
  each i hv ho := .inl (Array.getElem_map ..)
  stored s e h := by simp at h

theorem Answered.lockOnlyAt {offers : Array (Float × S)} {st : Register S × Array ((Float × S) ⊕ Bool)}
    (h : Answered offers st) (j : Nat) : Answered offers (lockOnlyAt j st) := by
  unfold Call.lockOnlyAt
  split
  · next hj =>
      have hjo : j < offers.size := h.size_eq ▸ hj
      rcases h.each j hj hjo with hpending | ⟨⟨b, hb⟩, -⟩
      · -- call `j` makes its offer `(e, s)`
        rcases hoffer : offers[j] with ⟨e, s⟩
        rw [hoffer] at hpending
        have hr := h.valid
        have hstep : lockOnlyStep st.1 st.2[j] = (.inr (st.1.offer e s).1, (st.1.offer e s).2) := by
          rw [hpending, lockOnlyStep, Register.lockOnly_eq_offer hr]
        simp only [hstep]
        refine ⟨hr.offer e s, by simp [h.size_eq], fun i hv ho => ?_, fun s' e' hbest => ?_⟩
        · rw [Array.getElem_set]
          split
          · next hij =>
              subst hij
              refine .inr ⟨⟨_, rfl⟩, ?_⟩
              rw [hoffer]
              cases he : e.isNaN
              · exact .inr (Register.offer_covers hr s he)
              · exact .inl rfl
          · next hij =>
              rcases h.each i (by simpa using hv) ho with hsame | ⟨hans, hnan | hbound⟩
              · exact .inl hsame
              · exact .inr ⟨hans, .inl hnan⟩
              · exact .inr ⟨hans, .inr (hbound.offer hr e s)⟩
        · rcases Register.offer_best hr e s with hsame | hnew
          · exact h.stored s' e' (hsame ▸ hbest)
          · rw [hnew] at hbest
            obtain ⟨rfl, rfl⟩ := Prod.mk.inj (Option.some.inj hbest)
            exact hoffer ▸ Array.getElem_mem hjo
      · -- an answered call does nothing
        have hstep : lockOnlyStep st.1 st.2[j] = (st.2[j], st.1) := by
          rw [hb]
          rfl
        simpa only [hstep, Array.set_getElem_self] using h
  · exact h

theorem Answered.lockOnlyRun {offers : Array (Float × S)} (order : List Nat) {r : Register S}
    {views : Array ((Float × S) ⊕ Bool)} (h : Answered offers (r, views)) :
    Answered offers (lockOnlyRun order r views) := by
  induction order generalizing r views with
  | nil => exact h
  | cons j rest ih => exact ih (h.lockOnlyAt j)

/-- Once every call has answered, the register is empty exactly when every offer was NaN,
and otherwise holds an energy at or below every offer that is no NaN. -/
theorem Answered.least {offers : Array (Float × S)} {st : Register S × Array ((Float × S) ⊕ Bool)}
    (h : Answered offers st) (hall : ∀ v ∈ st.2, ∃ b, v = .inr b) :
    (st.1.best = none ↔ ∀ o ∈ offers, o.1.isNaN = true) ∧
      ∀ o ∈ offers, o.1.isNaN = false → st.1.bestEnergy ≤ o.1 := by
  -- every offer has been answered, so it is NaN or at or above the filled register's energy
  have hanswer : ∀ o ∈ offers, o.1.isNaN = true ∨ st.1.Covers o.1 := by
    intro o ho
    obtain ⟨i, hio, rfl⟩ := Array.mem_iff_getElem.1 ho
    have hiv : i < st.2.size := h.size_eq ▸ hio
    rcases h.each i hiv hio with hpending | ⟨-, hans⟩
    · obtain ⟨b, hb⟩ := hall _ (Array.getElem_mem hiv)
      rw [hpending] at hb
      cases hb
    · exact hans
  refine ⟨⟨fun hnone o ho => ?_, fun hnan => ?_⟩, fun o ho hno => ?_⟩
  · rcases hanswer o ho with hn | hfilled
    · exact hn
    · exact absurd hnone hfilled.1
  · -- a stored energy was offered and is no NaN
    rcases hbest : st.1.best with _ | ⟨s, e⟩
    · rfl
    · have hstored : e.isNaN = true := hnan (e, s) (h.stored s e hbest)
      have hno := h.valid.no_nan e (Array.mem_of_back? (h.valid.last s e hbest))
      rw [hstored] at hno
      cases hno
  · rcases hanswer o ho with hn | hfilled
    · rw [hn] at hno
      cases hno
    · exact hfilled.2

end Call

/-! ## Every interleaving

A state of the threads' run is the shared register and the calls. Seen from outside it is
the slot and each call's pending offer or answer (`outside`). The induction over the schedule
carries three things at once: the state stays sound, the mirror does not rise, and the run
seen from outside is a run of the lock-only register. -/

namespace Mirrored

/-- One step of call `i`, if there is such a call. -/
def stepAt (i : Nat) (st : Mirrored S × Array (Call S)) : Mirrored S × Array (Call S) :=
  if h : i < st.2.size then
    let next := st.2[i].step st.1
    (next.2, st.2.set i next.1)
  else st

theorem interleave_eq_foldl (schedule : List Nat) (m : Mirrored S) (calls : Array (Call S)) :
    Mirrored.interleave schedule m calls = schedule.foldl (fun st i => stepAt i st) (m, calls) :=
  rfl

/-- A coherent register and calls that are ready. -/
def Sound (st : Mirrored S × Array (Call S)) : Prop :=
  st.1.Coherent ∧ ∀ c ∈ st.2, c.Ready

/-- The state seen from outside: the slot, and each call's pending offer or answer. -/
def outside (st : Mirrored S × Array (Call S)) : Register S × Array ((Float × S) ⊕ Bool) :=
  (st.1.slot, st.2.map Call.view)

theorem stepAt_spec {st : Mirrored S × Array (Call S)} (hs : Sound st) (i : Nat) :
    Sound (stepAt i st) ∧ (stepAt i st).1.mirror ≤ st.1.mirror ∧
      (outside (stepAt i st) = outside st ∨ outside (stepAt i st) = Call.lockOnlyAt i (outside st)) := by
  unfold stepAt
  split
  · next h =>
      dsimp only
      obtain ⟨hm', hc', hv⟩ := Call.step_refines hs.1 (hs.2 _ (Array.getElem_mem h))
      refine ⟨⟨hm', fun c hc => ?_⟩, Call.step_mirror_le hs.1 (hs.2 _ (Array.getElem_mem h)), ?_⟩
      · rcases Array.mem_or_eq_of_mem_set (show c ∈ st.2.set i _ h from hc) with hc | rfl
        · exact hs.2 c hc
        · exact hc'
      · rcases hv with hv | hv
        · -- a step invisible from outside
          left
          have hview : (st.2[i].step st.1).1.view = st.2[i].view := congrArg Prod.fst hv
          have hslot : (st.2[i].step st.1).2.slot = st.1.slot := congrArg Prod.snd hv
          simp only [outside, Array.map_set, hview, hslot]
          rw [← Array.map_set, Array.set_getElem_self]
          exact h
        · -- the lock-only call made at once
          right
          have hview : (st.2[i].step st.1).1.view = (Call.lockOnlyStep st.1.slot st.2[i].view).1 :=
            congrArg Prod.fst hv
          have hslot : (st.2[i].step st.1).2.slot = (Call.lockOnlyStep st.1.slot st.2[i].view).2 :=
            congrArg Prod.snd hv
          have hlt : i < (st.2.map Call.view).size := by simpa using h
          simp only [outside, Call.lockOnlyAt, dif_pos hlt, Array.getElem_map, Array.map_set, hview,
            hslot]
  · exact ⟨hs, Float.le_refl_of_isNaN_eq_false (hs.1.mirror_eq ▸ hs.1.valid.bestEnergy_isNaN),
      .inl rfl⟩

theorem run_spec (schedule : List Nat) {st : Mirrored S × Array (Call S)} (hs : Sound st) :
    let st' := schedule.foldl (fun st i => stepAt i st) st
    Sound st' ∧ st'.1.mirror ≤ st.1.mirror ∧
      ∃ order, Call.lockOnlyRun order (outside st).1 (outside st).2 = outside st' := by
  induction schedule generalizing st with
  | nil =>
      exact ⟨hs, Float.le_refl_of_isNaN_eq_false (hs.1.mirror_eq ▸ hs.1.valid.bestEnergy_isNaN),
        [], rfl⟩
  | cons i rest ih =>
      obtain ⟨hs₁, hmirror₁, hout₁⟩ := stepAt_spec hs i
      obtain ⟨hs', hmirror', order, horder⟩ := ih hs₁
      refine ⟨hs', Float.le_trans hmirror' hmirror₁, ?_⟩
      rcases hout₁ with hout₁ | hout₁
      · exact ⟨order, by rw [← hout₁]; exact horder⟩
      · refine ⟨i :: order, ?_⟩
        show Call.lockOnlyRun order (Call.lockOnlyAt i (outside st)).1
          (Call.lockOnlyAt i (outside st)).2 = _
        rw [← hout₁]
        exact horder

theorem start_sound (requests : Array (Bool × Float × S)) :
    Sound (Mirrored.empty, requests.map fun q => Call.fresh q.1 q.2.1 q.2.2) := by
  refine ⟨empty_coherent, fun c hc => ?_⟩
  obtain ⟨q, -, rfl⟩ := Array.mem_map.1 hc
  exact Call.fresh_ready ..

/-- A step that refuses before the lock has found its energy NaN or above the mirror. -/
theorem early_refusal {m : Mirrored S} (hm : m.Coherent) {c : Call S} {e : Float} {s : S}
    (hc : c = .guarded e s ∨ c = .start e s ∨ c = .checked e s)
    (hr : (c.step m).1 = .returned false) : e.isNaN = true ∨ m.mirror < e := by
  have hmirror : m.mirror.isNaN = false := hm.mirror_eq ▸ hm.valid.bestEnergy_isNaN
  rcases hc with rfl | rfl | rfl
  · -- the guard: an energy not at or below the mirror
    simp only [Call.step] at hr
    split at hr
    · cases hr
    · next hle =>
        cases he : e.isNaN
        · exact .inr (Float.lt_of_not_le he hmirror hle)
        · exact .inl rfl
  · -- the NaN check
    simp only [Call.step] at hr
    split at hr
    · next hnan => exact .inl hnan
    · cases hr
  · -- the unlocked read of the mirror
    simp only [Call.step] at hr
    split at hr
    · next habove => exact .inr habove
    · cases hr

/-- An energy that is NaN or above the mirror at some point is refused by the lock-only call
then and at every later point: the mirror only falls and equals the slot's energy. -/
theorem refused_later {m m' : Mirrored S} (hm' : m'.Coherent) (hle : m'.mirror ≤ m.mirror)
    {e : Float} (s : S) (h : e.isNaN = true ∨ m.mirror < e) :
    m'.slot.lockOnly e s = (false, m'.slot) := by
  rcases h with hnan | habove
  · simp only [Register.lockOnly, hnan, ↓reduceIte]
  · apply Register.lockOnly_of_not_le hm'.valid s
    rw [← hm'.mirror_eq]
    exact Float.not_le_of_lt (Float.lt_of_le_of_lt hle habove)

/-- Clients call `tryImprove`, some behind a guard on the register's energy as a worker's
publication and the engine's reconciliation are, and their steps interleave in any order.
At every point of the run the mirror equals the slot's energy and the slot is one that
offers reach (`Register.Valid`: empty exactly when its history is, ending with the stored
energy, strictly falling, free of NaN), with energy `+∞` when empty; the mirror never rises
later; a refusal made before the lock is one the lock-only call makes then and at every later
point; the run, seen from outside, is a run of the lock-only register with each call made at
once; the register holds one of the offers; and once every call has answered it is empty
exactly when every offer was NaN, and otherwise at or below every offer that is no NaN. -/
theorem register_linearizable (requests : Array (Bool × Float × S)) (schedule : List Nat) :
    (let calls := requests.map fun q => Call.fresh q.1 q.2.1 q.2.2
     let st := Mirrored.interleave schedule Mirrored.empty calls
     (st.1.mirror = st.1.slot.bestEnergy ∧ st.1.slot.Valid ∧
       (st.1.slot.best = none → st.1.mirror = 1.0 / 0.0)) ∧
     (∀ more, (Mirrored.interleave (schedule ++ more) Mirrored.empty calls).1.mirror ≤
       st.1.mirror) ∧
     (∀ i (hi : i < st.2.size) e s,
       (st.2[i] = .guarded e s ∨ st.2[i] = .start e s ∨ st.2[i] = .checked e s) →
       (st.2[i].step st.1).1 = .returned false →
       ∀ more, let m := (Mirrored.interleave (schedule ++ more) Mirrored.empty calls).1
         m.slot.lockOnly e s = (false, m.slot)) ∧
     (∃ order, Call.lockOnlyRun order Register.empty (calls.map Call.view) =
       (st.1.slot, st.2.map Call.view)) ∧
     (∀ s e, st.1.slot.best = some (s, e) → ∃ g, (g, e, s) ∈ requests) ∧
     ((∀ c ∈ st.2, ∃ b, c = .returned b) →
       (st.1.slot.best = none ↔ ∀ q ∈ requests, q.2.1.isNaN = true) ∧
       ∀ q ∈ requests, q.2.1.isNaN = false → st.1.slot.bestEnergy ≤ q.2.1)) := by
  intro calls st
  obtain ⟨hs, -, order, horder⟩ := run_spec schedule (start_sound requests)
  have hrun : Call.lockOnlyRun order Register.empty (calls.map Call.view) =
      (st.1.slot, st.2.map Call.view) := horder
  -- every later point continues the same run
  have hlater : ∀ more, (Mirrored.interleave (schedule ++ more) Mirrored.empty calls).1.Coherent ∧
      (Mirrored.interleave (schedule ++ more) Mirrored.empty calls).1.mirror ≤ st.1.mirror := by
    intro more
    rw [interleave_eq_foldl, List.foldl_append]
    obtain ⟨hs', hle, -⟩ := run_spec more hs
    exact ⟨hs'.1, hle⟩
  -- the lock-only run the simulation gives answers every offer
  let offers := requests.map fun q => (q.2.1, q.2.2)
  have hviews : calls.map Call.view = offers.map Sum.inl := by
    simp [calls, offers, Function.comp_def]
  have hanswered : Call.Answered offers (st.1.slot, st.2.map Call.view) := by
    have h := (Call.answered_start offers).lockOnlyRun order
    rwa [← hviews, hrun] at h
  have hoffers : ∀ {P : Float × S → Prop}, (∀ o ∈ offers, P o) ↔ ∀ q ∈ requests, P (q.2.1, q.2.2) :=
    ⟨fun h q hq => h _ (Array.mem_map.2 ⟨q, hq, rfl⟩), fun h o ho => by
      obtain ⟨q, hq, rfl⟩ := Array.mem_map.1 ho
      exact h q hq⟩
  refine ⟨⟨hs.1.mirror_eq, hs.1.valid,
      fun hnone => hs.1.mirror_eq.trans (Register.bestEnergy_of_none hnone)⟩,
    fun more => (hlater more).2, ?_, ⟨order, hrun⟩, ?_, ?_⟩
  · intro i hi e s hc hr more
    exact refused_later (hlater more).1 (hlater more).2 s (early_refusal hs.1 hc hr)
  · intro s e hbest
    obtain ⟨q, hq, hqe⟩ := Array.mem_map.1 (hanswered.stored s e hbest)
    obtain ⟨g, e', s'⟩ := q
    obtain ⟨rfl, rfl⟩ := Prod.mk.inj hqe
    exact ⟨g, hq⟩
  · intro hall
    have hall' : ∀ v ∈ st.2.map Call.view, ∃ b, v = .inr b := by
      intro v hv
      obtain ⟨c, hc, rfl⟩ := Array.mem_map.1 hv
      obtain ⟨b, rfl⟩ := hall c hc
      exact ⟨b, rfl⟩
    obtain ⟨hempty, hleast⟩ := hanswered.least hall'
    exact ⟨hempty.trans hoffers, hoffers.1 hleast⟩

end Mirrored

end Annealing
