import Annealing.Proofs.Outcomes

/-!
# A lone worker and the register

With a single worker nobody else writes the register, and the register becomes a copy of the
worker's own best. Two paths write it: the publication of a new local best after an accepted
move, guarded by the register's energy, and the offer of a restart's fresh solution, which the
walk adopts exactly when the register takes it. Publication's guard and the register's strict
comparison agree with the walk's strict comparison on every energy a walk can meet, signed zeros
and infinities included, because the register's energy is at or below the walk's best
(`Walk.Sound`).

The register's contents are pinned down by the run's evaluations alone (`Register.Records`): in
every run, at every step boundary, the register holds the last of the record lows of the energies
computed so far, in the order computed, and its history is those record lows. An evaluation
strictly below the register is a neighbour the move takes and then publishes, or a fresh solution
the register takes; every other evaluation the register would refuse anyway. With one worker the
register also holds the worker's best at every step boundary after its start (`Lone`), so its
history is the sequence of the worker's local bests, a successful run reports the worker's best
with that history, and a failed run leaves the best the worker had reached when it failed.
-/

namespace Annealing

open Annealing.Random

variable {σ ω S : Type}

/-! ## Record lows -/

namespace Register

/-- Whether an energy sets a record after the records `rs`: it is no NaN, and there is no
record yet or it lies strictly below the last one. -/
def setsRecord (rs : List (S × Float)) (e : Float) : Bool :=
  !e.isNaN && rs.getLast?.all fun r => decide (e < r.2)

/-- The evaluations that set a record, in order. -/
def records (log : List (S × Float)) : List (S × Float) :=
  log.foldl (fun rs q => if setsRecord rs q.2 then rs ++ [q] else rs) []

@[simp] theorem records_nil : records ([] : List (S × Float)) = [] := rfl

theorem records_concat (log : List (S × Float)) (q : S × Float) :
    records (log ++ [q]) =
      if setsRecord (records log) q.2 then records log ++ [q] else records log := by
  unfold records
  rw [List.foldl_append]
  rfl

/-- A register whose solution is the last record of `log` and whose history is the records'
energies. -/
def Records (reg : Register S) (log : List (S × Float)) : Prop :=
  reg.best = (records log).getLast? ∧ reg.history.toList = (records log).map Prod.snd

theorem Records.empty : Records (empty : Register S) [] := ⟨rfl, rfl⟩

variable {reg : Register S} {log : List (S × Float)}

/-- The register takes an offer exactly when it sets a record. -/
theorem Records.taken_iff (h : Records reg log) (e : Float) :
    setsRecord (records log) e = true ↔
      e.isNaN = false ∧ (reg.best = none ∨ e < reg.bestEnergy) := by
  rw [h.1]
  rcases hlast : (records log).getLast? with _ | ⟨s, E⟩
  · simp [setsRecord, hlast]
  · have hE : reg.bestEnergy = E := bestEnergy_of_best (h.1.trans hlast)
    simp [setsRecord, hlast, hE]

/-- An offer keeps the register in step with the records. -/
theorem Records.offer (h : Records reg log) (hr : reg.Valid) (q : S × Float) :
    Records (reg.offer q.2 q.1).2 (log ++ [q]) := by
  rw [Records, records_concat, offer_eq hr.bestEnergy_isNaN]
  by_cases htake : setsRecord (records log) q.2 = true
  · rw [if_pos htake, if_pos ((h.taken_iff q.2).1 htake)]
    simp [h.2]
  · rw [if_neg htake, if_neg (fun h' => htake ((h.taken_iff q.2).2 h'))]
    exact h

/-- A NaN sets no record. -/
theorem Records.nan (h : Records reg log) {q : S × Float} (hq : q.2.isNaN = true) :
    Records reg (log ++ [q]) := by
  have hno : setsRecord (records log) q.2 = false := by
    simp only [setsRecord, hq, Bool.not_true, Bool.false_and]
  rw [Records, records_concat, hno]
  exact h

theorem Records.nans (h : Records reg log) {extra : List (S × Float)}
    (hnan : ∀ q ∈ extra, q.2.isNaN = true) : Records reg (log ++ extra) := by
  induction extra generalizing log with
  | nil => simpa using h
  | cons q rest ih =>
      have h' := h.nan (hnan q List.mem_cons_self)
      rw [← List.singleton_append, ← List.append_assoc]
      exact ih h' fun p hp => hnan p (List.mem_cons_of_mem _ hp)

/-- An evaluation the register covers sets no record. -/
theorem Records.covered (h : Records reg log) (hr : reg.Valid) {q : S × Float}
    (hc : reg.Covers q.2) : Records reg (log ++ [q]) := by
  have h' := h.offer hr q
  rwa [hc.offer_eq hr] at h'

end Register

/-! ## Every run's register records its evaluations -/

open Register

variable {x y : Shared (σ × List (S × Float)) ω S × Stream}

theorem Register.Records.untracked (h : Records x.1.register x.1.log) (hu : Untracked x y) :
    Records y.1.register y.1.log := by
  rw [hu.1, hu.2]
  exact h

theorem Register.Records.quiet (h : Records x.1.register x.1.log) (hq : Quiet x y) :
    Records y.1.register y.1.log := by
  obtain ⟨hreg, extra, hlog, hnan⟩ := hq
  rw [hreg, hlog]
  exact h.nans hnan

/-- The move and the keeping of the best offer the neighbour, or the register refuses it: a
neighbour strictly below the register is strictly below the walk's current solution, so the move
takes it, and strictly below the walk's best, so it is published. -/
theorem moveKeep_records {cx : Setup σ ω S} {i it : Nat} {w w₁ w₂ : Walk S}
    {y₁ : Shared (σ × List (S × Float)) ω S × Stream}
    (hl : Ledger x.1.log x.1.register) (hs : Walk.Sound x.1.log x.1.register w)
    (h : Records x.1.register x.1.log)
    (hmove : Turn.move cx.recording i it w x = .ok w₁ y₁)
    (hkeep : Turn.keepBest cx.recording.config it w₁ y₁ = .ok w₂ y) :
    Records y.1.register y.1.log := by
  obtain ⟨hreg₁, -, hbestE₁, -, cand, c, hc, hlog₁, hcur⟩ := Turn.move_ok hmove
  obtain ⟨hlog₂, -, -, -, hkept⟩ := Turn.keepBest_ok hkeep
  have hr := hl.valid
  have hbest := hs.covers.isNaN
  have hcurrent : w.currentEnergy.isNaN = false := Float.isNaN_right_of_le hs.best_le
  rw [hlog₂, hlog₁]
  rcases hkept with ⟨hlt, -, -, hreg⟩ | ⟨hnlt, -, -, hreg⟩
  · -- a new local best: the move took the neighbour, and the publication offers it
    have htaken : w₁.current = cand ∧ w₁.currentEnergy = c := by
      rcases hcur with htake | ⟨-, hsame, -⟩
      · exact htake
      · rw [hsame, hbestE₁] at hlt
        exact absurd hlt (Float.not_lt_of_le hs.best_le)
    rw [hreg, hreg₁, guard_offer hr.bestEnergy_isNaN, htaken.1, htaken.2]
    exact h.offer hr (cand, c)
  · -- no new local best: the neighbour lies at or above the best, which the register covers
    rw [hreg, hreg₁]
    refine h.covered hr (hs.covers.trans ?_)
    rcases hcur with ⟨-, hcE⟩ | ⟨-, hsame, hnle⟩
    · rw [hcE, hbestE₁] at hnlt
      exact Float.le_of_not_lt hc hbest hnlt
    · exact Float.le_of_lt (Float.lt_of_le_of_lt hs.best_le (Float.lt_of_not_le hc hcurrent hnle))

theorem restart_records {cx : Setup σ ω S} {i it : Nat} {w w' : Walk S}
    (hl : Ledger x.1.log x.1.register) (h : Records x.1.register x.1.log)
    (hrestart : Turn.restart cx.recording i it w x = .ok w' y) :
    Records y.1.register y.1.log := by
  rcases Turn.restart_ok hrestart with ⟨hu, -⟩ | ⟨fresh, f, -, hlog, hreg, -⟩
  · exact h.untracked hu
  · rw [hlog, hreg]
    exact h.offer hl.valid (fresh, f)

theorem begin_records {cx : Setup σ ω S} {i : Nat} {w : Walk S}
    (hl : Ledger x.1.log x.1.register) (h : Records x.1.register x.1.log)
    (hbegin : Turn.begin cx.recording i x = .ok w y) : Records y.1.register y.1.log := by
  obtain ⟨-, -, -, hlog, hreg⟩ := Turn.begin_ok hbegin
  rw [hlog, hreg, guard_offer hl.valid.bestEnergy_isNaN]
  exact h.offer hl.valid (w.best, w.bestEnergy)

theorem begin_error_records {cx : Setup σ ω S} {i : Nat} {e : RunError}
    (hl : Ledger x.1.log x.1.register) (h : Records x.1.register x.1.log)
    (hbegin : Turn.begin cx.recording i x = .error e y) : Records y.1.register y.1.log := by
  rcases Turn.begin_error hbegin with hq | ⟨s, v, -, hlog, hreg⟩
  · exact h.quiet hq
  · rw [hlog, hreg, guard_offer hl.valid.bestEnergy_isNaN]
    exact h.offer hl.valid (s, v)

/-! ## An iteration, piece by piece -/

namespace Turn

variable {cx : Setup σ ω S} {i it : Nat} {w : Walk S} {x y : Shared σ ω S × Stream}

/-- An iteration up to its restart ends at one of the checks before the move, where it is, or
runs its move and the keeping of its best and shows the walk it reached to its hooks, and then
ends with that walk or goes on with it. -/
theorem advance_ok_cases {r : Phase S ⊕ Walk S} (h : Turn.advance cx i it w x = .ok r y) :
    (y = x ∧ ∃ t, r = .inl (.finished w.best (w.stats cx.config i t))) ∨
      ∃ m y₁, Turn.moveKeep cx i it w x = .ok m y₁ ∧
        (∃ stop, Turn.observe cx i it m y₁ = .ok stop y) ∧
        (r = .inr m ∨ ∃ t, r = .inl (.finished m.best (m.stats cx.config i t))) := by
  unfold Turn.advance at h
  dsimp only at h
  split at h
  · obtain ⟨rfl, rfl⟩ := EStateM.Result.ok.inj h
    exact .inl ⟨rfl, _, rfl⟩
  obtain ⟨sh, y₀, hshared, hrest₀⟩ := bind_eq_ok.1 h
  obtain ⟨rfl, rfl⟩ := EStateM.Result.ok.inj hshared
  clear h
  -- the abort flag and the cancel token end the walk where it is
  split at hrest₀
  · obtain ⟨rfl, rfl⟩ := EStateM.Result.ok.inj hrest₀
    exact .inl ⟨rfl, _, rfl⟩
  split at hrest₀
  · obtain ⟨rfl, rfl⟩ := EStateM.Result.ok.inj hrest₀
    exact .inl ⟨rfl, _, rfl⟩
  obtain ⟨w₁, y₁, hmove, hrest₁⟩ := bind_eq_ok.1 hrest₀
  obtain ⟨w₂, y₂, hkeep, hrest₂⟩ := bind_eq_ok.1 hrest₁
  obtain ⟨stop, y₃, hobserve, hrest₃⟩ := bind_eq_ok.1 hrest₂
  refine .inr ⟨w₂, y₂, bind_eq_ok.2 ⟨w₁, y₁, hmove, hkeep⟩, ?_⟩
  split at hrest₃
  · obtain ⟨rfl, rfl⟩ := EStateM.Result.ok.inj hrest₃
    exact ⟨⟨stop, hobserve⟩, .inr ⟨_, rfl⟩⟩
  split at hrest₃
  · obtain ⟨rfl, rfl⟩ := EStateM.Result.ok.inj hrest₃
    exact ⟨⟨stop, hobserve⟩, .inr ⟨_, rfl⟩⟩
  · obtain ⟨rfl, rfl⟩ := EStateM.Result.ok.inj hrest₃
    exact ⟨⟨stop, hobserve⟩, .inl rfl⟩

/-- An iteration up to its restart fails in its move or the keeping of its best, or in its
hooks, shown the walk its move and keep reached. -/
theorem advance_error_cases {e : RunError} (h : Turn.advance cx i it w x = .error e y) :
    Turn.moveKeep cx i it w x = .error e y ∨
      ∃ m y₁, Turn.moveKeep cx i it w x = .ok m y₁ ∧ Turn.observe cx i it m y₁ = .error e y := by
  unfold Turn.advance at h
  dsimp only at h
  split at h
  · cases h
  rcases bind_eq_error.1 h with hshared | ⟨sh, y₀, hshared, hrest₀⟩
  · cases hshared
  obtain ⟨rfl, rfl⟩ := EStateM.Result.ok.inj hshared
  clear h
  split at hrest₀
  · cases hrest₀
  split at hrest₀
  · cases hrest₀
  rcases bind_eq_error.1 hrest₀ with hmove | ⟨w₁, y₁, hmove, hrest₁⟩
  · exact .inl (bind_eq_error.2 (.inl hmove))
  rcases bind_eq_error.1 hrest₁ with hkeep | ⟨w₂, y₂, hkeep, hrest₂⟩
  · exact .inl (bind_eq_error.2 (.inr ⟨w₁, y₁, hmove, hkeep⟩))
  -- past the hooks nothing fails
  rcases bind_eq_error.1 hrest₂ with hobserve | ⟨stop, y₃, -, hrest₃⟩
  · exact .inr ⟨w₂, y₂, bind_eq_ok.2 ⟨w₁, y₁, hmove, hkeep⟩, hobserve⟩
  · split at hrest₃
    · cases hrest₃
    split at hrest₃ <;> cases hrest₃

end Turn

/-- A walk that held the register holds it after a piece that keeps it held. -/
theorem Held.owned {reg reg' : Register S} {b b' : S × Float} (h : Held reg reg' b b')
    (hown : reg.best = some b) : reg'.best = some b' := by
  rcases h with htake | ⟨rfl, rfl | hnot⟩
  · exact htake
  · exact hown
  · exact absurd hown hnot

section Iterate

variable {cx : Setup σ ω S} {i it : Nat} {w : Walk S}

theorem moveKeep_error_records {e : RunError} (h : Records x.1.register x.1.log)
    (hmk : Turn.moveKeep cx.recording i it w x = .error e y) : Records y.1.register y.1.log := by
  rcases bind_eq_error.1 hmk with hmove | ⟨w₁, y₁, -, hkeep⟩
  · exact h.quiet (Turn.move_error hmove)
  · exact (Turn.keepBest_error hkeep).elim

theorem advance_records {r : Phase S ⊕ Walk S} (hl : Ledger x.1.log x.1.register)
    (hs : Walk.Sound x.1.log x.1.register w) (h : Records x.1.register x.1.log)
    (hadvance : Turn.advance cx.recording i it w x = .ok r y) : Records y.1.register y.1.log := by
  rcases Turn.advance_ok_cases hadvance with ⟨rfl, -⟩ | ⟨m, y₁, hmk, ⟨stop, hobserve⟩, -⟩
  · exact h
  · obtain ⟨w₁, y₀, hmove, hkeep⟩ := bind_eq_ok.1 hmk
    exact (moveKeep_records hl hs h hmove hkeep).untracked (Turn.observe_ok hobserve)

theorem advance_error_records {e : RunError} (hl : Ledger x.1.log x.1.register)
    (hs : Walk.Sound x.1.log x.1.register w) (h : Records x.1.register x.1.log)
    (hadvance : Turn.advance cx.recording i it w x = .error e y) :
    Records y.1.register y.1.log := by
  rcases Turn.advance_error_cases hadvance with hmk | ⟨m, y₁, hmk, hobserve⟩
  · exact moveKeep_error_records h hmk
  · obtain ⟨w₁, y₀, hmove, hkeep⟩ := bind_eq_ok.1 hmk
    exact (moveKeep_records hl hs h hmove hkeep).untracked (Turn.observe_error hobserve)

theorem iterate_records {p : Phase S} (hl : Ledger x.1.log x.1.register)
    (hs : Walk.Sound x.1.log x.1.register w) (h : Records x.1.register x.1.log)
    (hiterate : Turn.iterate cx.recording i it w x = .ok p y) : Records y.1.register y.1.log := by
  unfold Turn.iterate at hiterate
  obtain ⟨r, y₁, hadvance, hrest⟩ := bind_eq_ok.1 hiterate
  have h₁ := advance_records hl hs h hadvance
  obtain ⟨m, hadv, -⟩ := advance_advances hl hs hadvance
  rcases r with phase | m'
  · obtain ⟨-, rfl⟩ := EStateM.Result.ok.inj hrest
    exact h₁
  · -- the restart, then the cooling, which touches neither register nor log
    obtain ⟨w₂, y₂, hrestart, hcool⟩ := bind_eq_ok.1 hrest
    obtain ⟨-, rfl⟩ := EStateM.Result.ok.inj hcool
    exact restart_records hadv.ledger h₁ hrestart

theorem iterate_error_records {e : RunError} (hl : Ledger x.1.log x.1.register)
    (hs : Walk.Sound x.1.log x.1.register w) (h : Records x.1.register x.1.log)
    (hiterate : Turn.iterate cx.recording i it w x = .error e y) :
    Records y.1.register y.1.log := by
  unfold Turn.iterate at hiterate
  rcases bind_eq_error.1 hiterate with hadvance | ⟨r, y₁, hadvance, hrest⟩
  · exact advance_error_records hl hs h hadvance
  have h₁ := advance_records hl hs h hadvance
  rcases r with phase | m
  · cases hrest
  · rcases bind_eq_error.1 hrest with hrestart | ⟨w₂, y₂, -, hcool⟩
    · exact h₁.quiet (Turn.restart_error hrestart)
    · cases hcool

end Iterate

/-- Every step of every run keeps the register in step with the run's evaluations. -/
theorem Worker.step_records {cx : Setup σ ω S} {sh : Shared (σ × List (S × Float)) ω S}
    {wk : Worker S} (hl : Ledger sh.log sh.register) (hs : wk.phase.Sound sh.log sh.register)
    (h : Records sh.register sh.log) :
    Records (wk.step cx.recording sh).1.register (wk.step cx.recording sh).1.log := by
  obtain ⟨i, g, phase⟩ := wk
  cases phase with
  | start =>
      simp only [Worker.step]
      rcases hb : Turn.begin cx.recording i (sh, g) with ⟨w, ⟨y, g'⟩⟩ | ⟨e, ⟨y, g'⟩⟩
      · exact begin_records (x := (sh, g)) hl h hb
      · exact begin_error_records (x := (sh, g)) hl h hb
  | walking it w =>
      have hs : Walk.Sound sh.log sh.register w := hs
      simp only [Worker.step, id]
      rcases hi : Turn.iterate cx.recording i it w (sh, g) with ⟨p, ⟨y, g'⟩⟩ | ⟨e, ⟨y, g'⟩⟩
      · exact iterate_records (x := (sh, g)) hl hs h hi
      · exact iterate_error_records (x := (sh, g)) hl hs h hi
  | finished best st => exact h
  | failed e => exact h

/-! ## The lone worker holds the register -/

/-- A lone worker's phase against the register: nothing before the start, the worker's best
while it walks and when it has finished. A failed worker says nothing here. -/
def Phase.Owns (reg : Register S) : Phase S → Prop
  | .start => reg.best = none
  | .walking _ w => reg.best = some (w.best, w.bestEnergy)
  | .finished best st => reg.best = some (best, st.bestEnergy)
  | .failed _ => True

theorem Phase.Owns.holds {reg : Register S} {p : Phase S} (h : p.Owns reg) {b : S × Float}
    (hb : reg.best = some b) : p.Holds b := by
  cases p with
  | start => cases h.symm.trans hb
  | walking t w => exact Option.some.inj (h.symm.trans hb)
  | finished best st => exact Option.some.inj (h.symm.trans hb)
  | failed e => trivial

theorem Phase.Owns.of_holds {reg : Register S} {p : Phase S} {b : S × Float}
    (hb : reg.best = some b) (hp : p.Holds b) : p.Owns reg := by
  cases p with
  | start => exact hp.elim
  | walking t w => exact hb.trans (congrArg some hp.symm)
  | finished best st => exact hb.trans (congrArg some hp.symm)
  | failed e => trivial

/-- A step that leaves a worker past its start leaves it holding the register, when it held it
before: what the register holds now is the worker's, or was the worker's and still is. -/
theorem Phase.Owns.step {x y : Shared (σ × List (S × Float)) ω S} {p p' : Phase S}
    (h : p.Owns x.register) (hs : Steps x y p p') (hstart : p' ≠ .start) : p'.Owns y.register := by
  -- the register is filled when the worker walks or has finished: it covers the worker's best
  have hfilled : (∀ e, p' ≠ .failed e) → y.register.best ≠ none := by
    intro hnf
    cases p' with
    | start => exact absurd rfl hstart
    | walking t w => exact hs.sound.covers.1
    | finished best st => exact hs.sound.2.1
    | failed e => exact absurd rfl (hnf e)
  by_cases hf : ∃ e, p' = .failed e
  · obtain ⟨e, rfl⟩ := hf
    trivial
  obtain ⟨b, hb⟩ := Option.ne_none_iff_exists'.1 (hfilled fun e he => hf ⟨e, he⟩)
  rcases hs.held b hb with hnew | ⟨hold, hkeep⟩
  · exact Phase.Owns.of_holds hb hnew
  · exact Phase.Owns.of_holds hb (hkeep (h.holds hold))

/-- A worker's start leaves it walking or failed. -/
theorem Worker.step_start_ne {cx : Setup σ ω S} {sh : Shared σ ω S} {wk : Worker S}
    (h : wk.phase = .start) : (wk.step cx sh).2.phase ≠ .start := by
  obtain ⟨i, g, phase⟩ := wk
  cases h
  simp only [Worker.step]
  rcases hb : Turn.begin cx i (sh, g) with ⟨w, ⟨y, g'⟩⟩ | ⟨e, ⟨y, g'⟩⟩ <;> intro hstart <;>
    cases hstart

/-- What a lone worker's logging run keeps at every step boundary: the ledger, the worker's
phase sound, the register in step with the run's evaluations, and the register holding the
worker's best. -/
structure Lone (x : Shared (σ × List (S × Float)) ω S) (wk : Worker S) : Prop where
  fresh : wk.phase = .start → x.log = []
  ledger : Ledger x.log x.register
  sound : wk.phase.Sound x.log x.register
  records : Records x.register x.log
  owns : wk.phase.Owns x.register

namespace Lone

variable {cx : Setup σ ω S} {x : Shared (σ × List (S × Float)) ω S} {wk : Worker S}

/-- A run starts with an empty register and a log of nothing. -/
theorem start (sh : Shared σ ω S) (wk : Worker S) (hwk : wk.phase = .start) :
    Lone { sh.logged with register := Register.empty, abort := false } wk where
  fresh _ := rfl
  ledger := Ledger.empty
  sound := by rw [hwk]; trivial
  records := Records.empty
  owns := by rw [hwk]; rfl

theorem step (h : Lone x wk) : Lone (wk.step cx.recording x).1 (wk.step cx.recording x).2 := by
  have hsteps : Steps x (wk.step cx.recording x).1 wk.phase (wk.step cx.recording x).2.phase :=
    Worker.step_steps h.ledger h.sound
  have hne : (wk.step cx.recording x).2.phase ≠ .start := by
    by_cases hstart : wk.phase = .start
    · exact Worker.step_start_ne hstart
    · -- a worker past its start stays past it
      exact (hsteps.below hstart).1
  exact ⟨fun hstart => absurd hstart hne, hsteps.ledger, hsteps.sound,
    Worker.step_records h.ledger h.sound h.records, h.owns.step hsteps hne⟩

theorem steps (h : Lone x wk) (k : Nat) :
    Lone (Worker.steps cx.recording k x wk).1 (Worker.steps cx.recording k x wk).2 := by
  induction k with
  | zero => exact h
  | succ k ih =>
      rw [Worker.steps_succ]
      exact ih.step

theorem owns_at (h : Lone x wk) {p : Phase S} (hp : wk.phase = p) : p.Owns x.register := by
  rw [← hp]
  exact h.owns

theorem sound_at (h : Lone x wk) {p : Phase S} (hp : wk.phase = p) : p.Sound x.log x.register := by
  rw [← hp]
  exact h.sound

end Lone

/-! ## Where a lone walk fails -/

section Failure

variable {cx : Setup σ ω S} {i it : Nat} {w : Walk S} {e : RunError}

/-- A failing iteration of a walk that holds the register leaves it holding the best the walk
had reached: the one its move and keep reached, when a hook or the restart failed, or its own,
untouched, when the move failed. -/
theorem iterate_error_owned (hl : Ledger x.1.log x.1.register)
    (hs : Walk.Sound x.1.log x.1.register w)
    (hown : x.1.register.best = some (w.best, w.bestEnergy))
    (h : Turn.iterate cx.recording i it w x = .error e y) :
    (∃ m y₁, Turn.moveKeep cx.recording i it w x = .ok m y₁ ∧
        y.1.register.best = some (m.best, m.bestEnergy)) ∨
      Turn.moveKeep cx.recording i it w x = .error e y ∧ y.1.register = x.1.register := by
  unfold Turn.iterate at h
  rcases bind_eq_error.1 h with hadvance | ⟨r, y₁, hadvance, hrest⟩
  · rcases Turn.advance_error_cases hadvance with hmk | ⟨m, y₁, hmk, hobserve⟩
    · rcases bind_eq_error.1 hmk with hmove | ⟨w₁, y₀, -, hkeep⟩
      · exact .inr ⟨hmk, (Turn.move_error hmove).1⟩
      · exact (Turn.keepBest_error hkeep).elim
    · obtain ⟨w₁, y₀, hmove, hkeep⟩ := bind_eq_ok.1 hmk
      refine .inl ⟨m, y₁, hmk, ?_⟩
      rw [(Turn.observe_error hobserve).1]
      exact (moveKeep_advances hl hs hmove hkeep).held.owned hown
  · -- the restart failed, after the hooks were shown the walk the move and keep reached
    rcases r with phase | m
    · cases hrest
    rcases Turn.advance_ok_cases hadvance with ⟨-, t, hr⟩ | ⟨m', y₀, hmk, ⟨stop, hobserve⟩, hr⟩
    · cases hr
    obtain rfl : m' = m := by
      rcases hr with hr | ⟨t, hr⟩
      · exact (Sum.inr.inj hr).symm
      · cases hr
    obtain ⟨w₁, y₂, hmove, hkeep⟩ := bind_eq_ok.1 hmk
    refine .inl ⟨m', y₀, hmk, ?_⟩
    rcases bind_eq_error.1 hrest with hrestart | ⟨w₂, y₃, -, hcool⟩
    · rw [(Turn.restart_error hrestart).1, (Turn.observe_ok hobserve).1]
      exact (moveKeep_advances hl hs hmove hkeep).held.owned hown
    · cases hcool

end Failure

namespace Lone

variable {cx : Setup σ ω S} {x : Shared (σ × List (S × Float)) ω S} {wk : Worker S}
  {err : RunError}

/-- A lone worker whose start fails leaves the register empty, or holding the one solution it
evaluated, when it failed after publishing it. -/
theorem start_failed (h : Lone x wk) (hstart : wk.phase = .start)
    (hf : (wk.step cx.recording x).2.phase = .failed err) :
    (wk.step cx.recording x).1.register.best = none ∨ ∃ s v,
      (wk.step cx.recording x).1.log = [(s, v)] ∧
        (wk.step cx.recording x).1.register.best = some (s, v) := by
  have hempty : x.register.best = none := h.owns_at hstart
  have hlog := h.fresh hstart
  obtain ⟨i, g, phase⟩ := wk
  cases hstart
  simp only [Worker.step] at hf ⊢
  rcases hb : Turn.begin cx.recording i (x, g) with ⟨w, ⟨y, g'⟩⟩ | ⟨e, ⟨y, g'⟩⟩ <;>
    rw [hb] at hf
  · cases hf
  show y.register.best = none ∨ ∃ s v, y.log = [(s, v)] ∧ y.register.best = some (s, v)
  rcases Turn.begin_error hb with ⟨hreg, -⟩ | ⟨s, v, hv, hlog', hreg⟩
  · exact .inl ((congrArg Register.best hreg).trans hempty)
  · -- published into the empty register, which took it
    refine .inr ⟨s, v, by rw [show y.log = _ from hlog', show x.log = _ from hlog]; rfl, ?_⟩
    rw [show y.register = _ from hreg, guard_offer h.ledger.valid.bestEnergy_isNaN,
      offer_eq h.ledger.valid.bestEnergy_isNaN, if_pos ⟨hv, .inl hempty⟩]
    rfl

/-- A lone walk whose iteration fails leaves the register with the best it had reached: the one
its move and keep reached, or its own when the move failed. -/
theorem walking_failed (h : Lone x wk) {t : Nat} {w : Walk S} (hw : wk.phase = .walking t w)
    (hf : (wk.step cx.recording x).2.phase = .failed err) :
    (∃ m y, Turn.moveKeep cx.recording wk.index t w (x, wk.stream) = .ok m y ∧
        (wk.step cx.recording x).1.register.best = some (m.best, m.bestEnergy)) ∨
      (∀ m y, Turn.moveKeep cx.recording wk.index t w (x, wk.stream) ≠ .ok m y) ∧
        (wk.step cx.recording x).1.register.best = some (w.best, w.bestEnergy) := by
  have hs : Walk.Sound x.log x.register w := h.sound_at hw
  have hown : x.register.best = some (w.best, w.bestEnergy) := h.owns_at hw
  obtain ⟨i, g, phase⟩ := wk
  cases hw
  simp only [Worker.step, id] at hf ⊢
  rcases hi : Turn.iterate cx.recording i t w (x, g) with ⟨p, ⟨y, g'⟩⟩ | ⟨e, ⟨y, g'⟩⟩ <;>
    rw [hi] at hf
  · -- an iteration that returns has a best, which a failed phase has not
    cases hf
    obtain ⟨-, -, -, b, hb, -⟩ := iterate_advances (x := (x, g)) h.ledger hs hi
    cases hb
  rcases iterate_error_owned (x := (x, g)) h.ledger hs hown hi with
    ⟨m, y₁, hmk, hbest⟩ | ⟨hmk, hreg⟩
  · exact .inl ⟨m, y₁, hmk, hbest⟩
  · refine .inr ⟨fun m y₁ hok => ?_, ?_⟩
    · rw [hmk] at hok
      cases hok
    · show y.register.best = _
      rw [hreg]
      exact hown

end Lone

/-! ## The run of a lone worker -/

/-- Two setups in lockstep take an iteration's move and keep alike. -/
theorem Setup.Lockstep.moveKeep {σ₁ σ₂ : Type}
    {Q : Shared σ₁ ω S × Stream → Shared σ₂ ω S × Stream → Prop} {cx₁ : Setup σ₁ ω S}
    {cx₂ : Setup σ₂ ω S} (h : cx₁.Lockstep Q cx₂) (i it : Nat) (w : Walk S) :
    Annealing.Lockstep Q Eq (Turn.moveKeep cx₁ i it w) (Turn.moveKeep cx₂ i it w) := by
  unfold Turn.moveKeep
  rw [h.config]
  exact Annealing.Lockstep.bind (h.move i it w) fun w₁ _ hw => hw ▸ h.keepBest _ it w₁

/-- The log leaves the outcome of an iteration's move and keep alone. -/
theorem Turn.moveKeep_recording_ok {cx : Setup σ ω S} {i it : Nat} {w m : Walk S}
    {x : Shared (σ × List (S × Float)) ω S} {g : Stream} :
    (∃ y, Turn.moveKeep cx.recording i it w (x, g) = .ok m y) ↔
      ∃ y, Turn.moveKeep cx i it w (x.unlogged, g) = .ok m y := by
  have h := cx.lockstep_recording.moveKeep i it w
  constructor
  · rintro ⟨y, hy⟩
    obtain ⟨y', hy', -⟩ := h.ok_of_left rfl hy
    exact ⟨y', hy'⟩
  · rintro ⟨y, hy⟩
    obtain ⟨y', hy', -⟩ := h.ok_of_right (show Unlogs (x, g) (x.unlogged, g) from rfl) hy
    exact ⟨y', hy'⟩

namespace Worker

variable {cx : Setup σ ω S}

theorem steps_succ' (k : Nat) (sh : Shared σ ω S) (wk : Worker S) :
    steps cx (k + 1) sh wk = steps cx k (step cx sh wk).1 (step cx sh wk).2 :=
  Function.iterate_succ_apply _ k _

/-- A logging run alone is the plain run alone, seen without the log. -/
theorem steps_unlogged (k : Nat) (sh : Shared (σ × List (S × Float)) ω S) (wk : Worker S) :
    steps cx k sh.unlogged wk =
      ((steps cx.recording k sh wk).1.unlogged, (steps cx.recording k sh wk).2) := by
  induction k with
  | zero => rfl
  | succ k ih => rw [steps_succ, steps_succ, ih, step_unlogged]

/-- A run alone that ends failed failed in one step, from a worker that was not done, and the
run stays where that step left it. -/
theorem steps_failed {sh : Shared σ ω S} {wk : Worker S} (hwk : wk.done = false) {n : Nat}
    {err : RunError} (h : (steps cx n sh wk).2.phase = .failed err) :
    ∃ k, (steps cx k sh wk).2.done = false ∧ steps cx n sh wk = steps cx (k + 1) sh wk := by
  induction n with
  | zero =>
      have hdone : wk.done = true := by simp only [done, show wk.phase = .failed err from h]
      rw [hwk] at hdone
      cases hdone
  | succ n ih =>
      by_cases hd : (steps cx n sh wk).2.done = true
      · -- a done worker's step changes nothing, so the failure was there already
        have hsame : steps cx (n + 1) sh wk = steps cx n sh wk := by
          rw [steps_succ, step_of_done hd]
        rw [hsame] at h ⊢
        exact ih h
      · exact ⟨n, Bool.eq_false_iff.2 hd, rfl⟩

end Worker

namespace Engine

/-- A pool of one worker steps it alone, once each time the schedule names it. -/
theorem interleave_single (cx : Setup σ ω S) (schedule : List Nat) (sh : Shared σ ω S)
    (wk : Worker S) :
    interleave cx schedule sh #[wk] = ((Worker.steps cx (schedule.count 0) sh wk).1,
      #[(Worker.steps cx (schedule.count 0) sh wk).2]) := by
  induction schedule generalizing sh wk with
  | nil => rfl
  | cons i rest ih =>
      rw [interleave_cons]
      by_cases hi : i = 0
      · subst hi
        have hstep : stepAt cx 0 (sh, #[wk]) =
            ((Worker.step cx sh wk).1, #[(Worker.step cx sh wk).2]) := by
          simp [stepAt]
        rw [hstep, ih, List.count_cons_self, Worker.steps_succ']
      · -- a name outside the pool takes no step
        have hstep : stepAt cx i (sh, #[wk]) = (sh, #[wk]) := by
          unfold stepAt
          rw [dif_neg (by simpa using hi)]
        rw [hstep, ih, List.count_cons_of_ne hi]

theorem pool_one (seed : UInt64) : (pool seed 1 : Array (Worker S)) = #[Worker.fresh seed 0] := by
  simp [pool, Array.ofFn_succ]

/-- Settling a pool of one worker runs it alone, as many steps as the schedule and the run to
the end give it. -/
theorem settle_single (cx : Setup σ ω S) (seed : UInt64) (schedule : List Nat)
    (sh : Shared σ ω S) :
    settle cx seed 1 schedule sh =
      let lone := Worker.steps cx ((schedule ++ inOrder 1 (cx.config.maxIterations + 1)).count 0)
        sh (Worker.fresh seed 0)
      (lone.1, #[lone.2]) := by
  unfold settle
  rw [pool_one, interleave_single]

/-- The worker of a settled pool of one is done. -/
theorem settle_single_done {cx : Setup σ ω S} (hmax : 0 < cx.config.maxIterations)
    (seed : UInt64) (schedule : List Nat) (sh : Shared σ ω S) :
    (Worker.steps cx ((schedule ++ inOrder 1 (cx.config.maxIterations + 1)).count 0) sh
      (Worker.fresh seed 0)).2.done = true := by
  have hj : 0 < (settle cx seed 1 schedule sh).2.size := by rw [settle_single]; exact Nat.one_pos
  obtain ⟨-, -, hdone⟩ := settled_life hmax seed 1 schedule sh hj
  simpa only [settle_single, List.getElem_toArray, List.getElem_singleton] using hdone

/-- A run of one worker: its lone steps, as many as the schedule and the run to the end give
it, concluded. -/
theorem execute_single (e : Engine σ ω S) (sh : Shared σ ω S) (watchCancel : Bool)
    (entropy : UInt64) (schedule : List Nat) :
    e.execute sh false 1 watchCancel entropy schedule =
      let n := (schedule ++ inOrder 1 (e.config.maxIterations + 1)).count 0
      let lone := Worker.steps (e.setup watchCancel) n
        { sh with register := Register.empty, abort := false }
        (Worker.fresh (e.config.seed.getD entropy) 0)
      conclude lone.1 [lone.2.outcome] := by
  simp only [execute, checkStart, launch, settle_single]
  rfl

/-- The conclusion of a single report the register holds: the report's best, its energy, and
the register's improvements, with the shared state as it was. -/
theorem conclude_single {sh : Shared σ ω S} {q : S × Stats} (hr : sh.register.Valid)
    (hb : sh.register.best = some (q.1, q.2.bestEnergy)) :
    (conclude sh [.ok q]).shared = sh ∧ ∃ r, (conclude sh [.ok q]).result = .ok r ∧
      r.best = q.1 ∧ r.bestEnergy = q.2.bestEnergy ∧ r.workers = [q.2] ∧
      r.improvementHistory = sh.register.history := by
  have hE : sh.register.bestEnergy = q.2.bestEnergy := Register.bestEnergy_of_best hb
  have hcov : sh.register.Covers q.2.bestEnergy :=
    ⟨by rw [hb]; exact Option.some_ne_none _,
      hE ▸ Float.le_refl_of_isNaN_eq_false hr.bestEnergy_isNaN⟩
  have hrec : reconcile sh [q] = sh :=
    reconcile_covered hr fun q' hq' => by rw [List.mem_singleton.1 hq']; exact hcov
  unfold conclude
  simp only [List.mapM_cons, List.mapM_nil, id, bind, Except.bind, pure, Except.pure, hrec, hb]
  exact ⟨trivial, _, rfl, rfl, rfl, rfl, rfl⟩

end Engine

/-- What a lone worker, done, concludes to: its report, which the register holds, with the
register's records as the improvements; or its failure. Either way the shared state is the
worker's, the log set aside. -/
theorem Lone.conclude {x : Shared (σ × List (S × Float)) ω S} {wk : Worker S} (h : Lone x wk)
    (hd : wk.done = true) :
    (∀ r, (Engine.conclude x.unlogged [wk.outcome]).result = .ok r → ∃ best st,
      wk.phase = .finished best st ∧ (Engine.conclude x.unlogged [wk.outcome]).shared = x.unlogged ∧
        r.best = best ∧ r.bestEnergy = st.bestEnergy ∧ r.workers = [st] ∧
        r.improvementHistory.toList = (Register.records x.log).map Prod.snd) ∧
    (∀ err, (Engine.conclude x.unlogged [wk.outcome]).result = .error err →
      wk.phase = .failed err ∧ (Engine.conclude x.unlogged [wk.outcome]).shared = x.unlogged) := by
  obtain ⟨i, g, phase⟩ := wk
  cases phase with
  | start => cases hd
  | walking t w => cases hd
  | finished best st =>
      have hb : x.unlogged.register.best = some ((best, st).1, (best, st).2.bestEnergy) :=
        h.owns
      obtain ⟨hsh, r, hr, hbest, henergy, hworkers, hhist⟩ :=
        Engine.conclude_single (show x.unlogged.register.Valid from h.ledger.valid) hb
      refine ⟨fun r' hr' => ?_, fun err herr => ?_⟩
      · rw [Worker.outcome_of_finished rfl, hr] at hr'
        cases hr'
        refine ⟨best, st, rfl, by rw [Worker.outcome_of_finished rfl]; exact hsh, hbest, henergy,
          hworkers, ?_⟩
        rw [hhist]
        exact h.records.2
      · rw [Worker.outcome_of_finished rfl, hr] at herr
        cases herr
  | failed e =>
      refine ⟨fun r hr => ?_, fun err herr => ?_⟩
      · cases hr
      · cases herr
        exact ⟨rfl, rfl⟩

/-- A run of one worker keeps the register as the worker's own best. The run's offers to the
register, read off the run with a log of them, are those of the run without it; at every step
the register holds the last of their records (each offer below all before it) and its
improvements are their energies; once the worker has started the register holds its best.
So a run that succeeds reports the worker's best, energy and statistics with those records as
its improvements; and a run that fails does so in one step, leaving the register empty or with
the one solution offered when the start fails, and otherwise with the best that the failing
iteration's move and keep reached, or the walk's own when the move itself failed. -/
theorem Engine.lone_worker_register (e : Engine σ ω S) (hc : e.config.validate = .ok ())
    (sh : Shared σ ω S) (watchCancel : Bool) (entropy : UInt64) (schedule : List Nat) :
    let cx := e.setup watchCancel
    let start : Shared σ ω S := { sh with register := Register.empty, abort := false }
    let wk₀ : Worker S := Worker.fresh (e.config.seed.getD entropy) 0
    let plain := fun k => Worker.steps cx k start wk₀
    let logged := fun k => Worker.steps cx.recording k start.logged wk₀
    let run := e.execute sh false 1 watchCancel entropy schedule
    (∀ k, (logged k).1.unlogged = (plain k).1 ∧ (logged k).2 = (plain k).2) ∧
    (∀ k, (plain k).1.register.best = (Register.records (logged k).1.log).getLast? ∧
      (plain k).1.register.history.toList = (Register.records (logged k).1.log).map Prod.snd) ∧
    (∀ k t w, (plain k).2.phase = .walking t w →
      (plain k).1.register.best = some (w.best, w.bestEnergy)) ∧
    (∀ k best st, (plain k).2.phase = .finished best st →
      (plain k).1.register.best = some (best, st.bestEnergy)) ∧
    (∀ r, run.result = .ok r → ∃ k best st, (plain k).2.phase = .finished best st ∧
      run.shared = (plain k).1 ∧ r.best = best ∧ r.bestEnergy = st.bestEnergy ∧
      r.workers = [st] ∧
      r.improvementHistory.toList = (Register.records (logged k).1.log).map Prod.snd) ∧
    (∀ err, run.result = .error err → ∃ k, (plain (k + 1)).2.phase = .failed err ∧
      run.shared = (plain (k + 1)).1 ∧
      ((plain k).2.phase = .start ∧ ((plain (k + 1)).1.register.best = none ∨
          ∃ s v, (logged (k + 1)).1.log = [(s, v)] ∧
            (plain (k + 1)).1.register.best = some (s, v)) ∨
        ∃ t w, (plain k).2.phase = .walking t w ∧
          ((∃ m y, Turn.moveKeep cx (plain k).2.index t w ((plain k).1, (plain k).2.stream) =
                .ok m y ∧ (plain (k + 1)).1.register.best = some (m.best, m.bestEnergy)) ∨
            (∀ m y, Turn.moveKeep cx (plain k).2.index t w ((plain k).1, (plain k).2.stream) ≠
                .ok m y) ∧ (plain (k + 1)).1.register.best = some (w.best, w.bestEnergy)))) := by
  intro cx start wk₀ plain logged run
  have hlone : ∀ k, Lone (logged k).1 (logged k).2 := fun k => (Lone.start sh wk₀ rfl).steps k
  -- the plain run is the logged one with its log set aside
  have hplain : ∀ k, plain k = ((logged k).1.unlogged, (logged k).2) := fun k => by
    simpa only [Shared.unlogged_logged] using
      (Worker.steps_unlogged k start.logged wk₀ : Worker.steps cx k _ _ = _)
  have hnext : ∀ k, logged (k + 1) = Worker.step cx.recording (logged k).1 (logged k).2 :=
    fun k => Worker.steps_succ k _ _
  -- the run concludes the worker's run alone, which has come to its end
  let n := (schedule ++ inOrder 1 (e.config.maxIterations + 1)).count 0
  have hrun : run = Engine.conclude (plain n).1 [(plain n).2.outcome] :=
    execute_single e sh watchCancel entropy schedule
  have hmax : 0 < cx.config.maxIterations := Config.maxIterations_pos hc
  have hdone : (plain n).2.done = true :=
    settle_single_done hmax (e.config.seed.getD entropy) schedule start
  rw [hplain] at hrun hdone
  obtain ⟨hok, herr⟩ := (hlone n).conclude hdone
  refine ⟨fun k => by rw [hplain]; exact ⟨rfl, rfl⟩, fun k => ?_, fun k t w hw => ?_,
    fun k best st hf => ?_, fun r hr => ?_, fun err he => ?_⟩
  · rw [hplain]
    exact (hlone k).records
  · rw [hplain] at hw ⊢
    exact (hlone k).owns_at hw
  · rw [hplain] at hf ⊢
    exact (hlone k).owns_at hf
  · rw [hrun] at hr
    obtain ⟨best, st, hfin, hsh, hbest, henergy, hworkers, hhist⟩ := hok r hr
    exact ⟨n, best, st, by rw [hplain]; exact hfin, by rw [hrun, hsh, hplain], hbest, henergy,
      hworkers, hhist⟩
  · rw [hrun] at he
    obtain ⟨hfail, hsh⟩ := herr err he
    obtain ⟨k, hk, hnk⟩ : ∃ k, (logged k).2.done = false ∧ logged n = logged (k + 1) :=
      Worker.steps_failed (rfl : wk₀.done = false) hfail
    have hf : ((logged k).2.step cx.recording (logged k).1).2.phase = .failed err := by
      rw [← hnext, ← hnk]
      exact hfail
    refine ⟨k, by rw [hplain, ← hnk]; exact hfail, by rw [hrun, hsh, hplain, ← hnk], ?_⟩
    rw [hplain, hplain, hnext]
    -- the failing step began at the start or in a walk: a done worker takes no step
    rcases hphase : (logged k).2.phase with _ | ⟨t, w⟩ | ⟨best, st⟩ | e'
    · exact .inl ⟨rfl, (hlone k).start_failed hphase hf⟩
    · refine .inr ⟨t, w, rfl, ?_⟩
      rcases (hlone k).walking_failed hphase hf with ⟨m, y, hmk, hbest⟩ | ⟨hmk, hbest⟩
      · obtain ⟨y', hy'⟩ := Turn.moveKeep_recording_ok.1 ⟨y, hmk⟩
        exact .inl ⟨m, y', hy', hbest⟩
      · refine .inr ⟨fun m y hy => ?_, hbest⟩
        obtain ⟨y', hy'⟩ := Turn.moveKeep_recording_ok.2 ⟨y, hy⟩
        exact hmk m y' hy'
    · simp [Worker.done, hphase] at hk
    · simp [Worker.done, hphase] at hk

/-- An engine whose walk descends from `3` by one each move, with energy the solution itself. -/
def Engine.descent : Engine Unit Unit Nat where
  problem :=
    { randomSolution := pure 3, energy := fun n => pure n.toFloat
      neighbor := fun n => pure (n - 1) }
  config := { maxIterations := 3 }

/-- Its worker run alone reports the energy the register holds, and the register's improvements
are the walk's successive bests. -/
theorem Engine.descent_reports_its_walk :
    ∃ r, (Engine.descent.execute { register := Register.empty, problem := (), observer := () }
        false 1 false).result = .ok r ∧ r.improvementHistory = #[3.0, 2.0, 1.0, 0.0] ∧
      ∃ st, r.workers = [st] ∧ st.bestEnergy = r.bestEnergy := by
  have hhist : (Engine.descent.execute { register := Register.empty, problem := (), observer := () }
      false 1 false).result.toOption.map (·.improvementHistory) = some #[3.0, 2.0, 1.0, 0.0] := by
    decide +kernel
  obtain ⟨-, -, -, -, hok, -⟩ := Engine.lone_worker_register Engine.descent rfl
    { register := Register.empty, problem := (), observer := () } false 0 []
  cases hres : (Engine.descent.execute { register := Register.empty, problem := (), observer := () }
      false 1 false).result with
  | error err =>
      rw [hres] at hhist
      cases hhist
  | ok r =>
      rw [hres] at hhist
      injection hhist with hh
      obtain ⟨k, best, st, -, -, -, henergy, hworkers, -⟩ := hok r hres
      exact ⟨r, rfl, hh, st, hworkers, henergy.symm⟩

end Annealing
