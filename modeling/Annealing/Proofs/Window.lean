import Annealing.Adaptive
import Annealing.Proofs.Restarts

/-!
# The adaptive controller's window slides

The controller keeps three records of the same thing: a queue of the latest outcomes, the
number of acceptances among them, and the number of records since the rate was last looked at.
Together they are a sliding window whose adjustment points do not depend on how full the queue
is. After the records `bs`, with the window in effect `w = max window 1` (a window of zero acts
as one), the queue holds the last `min |bs| w` outcomes in order, the count is the number of
acceptances among them, and the records since the last look are `|bs| mod w`
(`Controller.Tracks`). Cooling steps between the records change none of it.

Hence the `k`-th record looks at the rate exactly when `k` is a multiple of `w`, and then the
queue is full, so the share it compares with the thresholds is that of the last `w` outcomes.
The queue is a pair of lists; all that matters of it is its view as one list (`Window.toList`),
which a push extends at the end and a pop shortens at the front.
-/

namespace Annealing.Adaptive

open Schedule

namespace Window

@[simp] theorem toList_push (w : Window) (b : Bool) : (w.push b).toList = w.toList ++ [b] := by
  simp [toList, push]

@[simp] theorem size_push (w : Window) (b : Bool) : (w.push b).size = w.size + 1 := rfl

@[simp] theorem toList_empty : ({} : Window).toList = [] := rfl

/-- A window whose oldest outcome is `x` pops it, leaving the rest in order. -/
theorem pop?_of_toList {w : Window} {x : Bool} {l : List Bool} (h : w.toList = x :: l) :
    ∃ w', w.pop? = some (x, w') ∧ w'.toList = l ∧ w'.size = w.size - 1 := by
  unfold toList at h
  unfold pop?
  cases hf : w.front with
  | cons b rest =>
      rw [hf, List.cons_append] at h
      obtain ⟨rfl, rfl⟩ := List.cons.inj h
      exact ⟨_, rfl, rfl, rfl⟩
  | nil =>
      rw [hf, List.nil_append] at h
      dsimp only
      rw [h]
      exact ⟨_, rfl, by simp [toList], rfl⟩

end Window

/-- A call on a controller: the record of a move's outcome, or one cooling step. -/
inductive Call
  | record (accepted : Bool)
  | cool
  deriving DecidableEq

/-- The outcome a call records, if it is a record. -/
def Call.outcome? : Call → Option Bool
  | .record b => some b
  | .cool => none

namespace Controller

variable {α : Type}

/-- The controller after one call. -/
def apply [Scalar α] (c : Controller α) : Call → Controller α
  | .record b => (c.record b).2
  | .cool => c.cool

/-- The controller after the calls, in order. -/
def replay [Scalar α] (c : Controller α) (calls : List Call) : Controller α :=
  calls.foldl apply c

/-! ## What a record and a cooling step change -/

section Fields

variable (c : Controller α) (b : Bool)

/-- Remembering an outcome changes the window and its count alone. -/
theorem remember_eq : ∃ q n, c.remember b = { c with outcomes := q, accepted := n } := by
  unfold remember
  split
  · split <;> exact ⟨_, _, rfl⟩
  · exact ⟨_, _, rfl⟩

@[simp] theorem remember_settings : (c.remember b).settings = c.settings := by
  obtain ⟨q, n, h⟩ := remember_eq c b
  rw [h]

@[simp] theorem remember_rate : (c.remember b).rate = c.rate := by
  obtain ⟨q, n, h⟩ := remember_eq c b
  rw [h]

@[simp] theorem remember_temperature : (c.remember b).temperature = c.temperature := by
  obtain ⟨q, n, h⟩ := remember_eq c b
  rw [h]

@[simp] theorem remember_sinceAdjustment :
    (c.remember b).sinceAdjustment = c.sinceAdjustment := by
  obtain ⟨q, n, h⟩ := remember_eq c b
  rw [h]

@[simp] theorem window_remember : (c.remember b).window = c.window := by
  simp [window]

theorem window_pos : 0 < c.window :=
  Nat.lt_of_lt_of_le Nat.zero_lt_one (Nat.le_max_right _ _)

variable [Scalar α]

@[simp] theorem replay_nil : c.replay [] = c := rfl

@[simp] theorem replay_cons (call : Call) (calls : List Call) :
    c.replay (call :: calls) = (c.apply call).replay calls := rfl

/-- A record remembers the outcome and moves the count since the last look at the rate; the
rate is all it changes besides. -/
theorem record_eq : ∃ r, (c.record b).2 = { c.remember b with
    rate := r
    sinceAdjustment := if c.sinceAdjustment + 1 < c.window then c.sinceAdjustment + 1 else 0 } := by
  unfold record
  dsimp only
  simp only [window_remember, remember_sinceAdjustment]
  -- the window not yet filled, then the three answers of a look at the rate
  split
  · exact ⟨_, rfl⟩
  · split
    · exact ⟨_, rfl⟩
    · split <;> exact ⟨_, rfl⟩

@[simp] theorem record_settings : (c.record b).2.settings = c.settings := by
  obtain ⟨r, h⟩ := record_eq c b
  rw [h]
  exact remember_settings c b

@[simp] theorem record_temperature : (c.record b).2.temperature = c.temperature := by
  obtain ⟨r, h⟩ := record_eq c b
  rw [h]
  exact remember_temperature c b

@[simp] theorem window_record : (c.record b).2.window = c.window := by
  simp [window]

@[simp] theorem record_outcomes : (c.record b).2.outcomes = (c.remember b).outcomes := by
  obtain ⟨r, h⟩ := record_eq c b
  rw [h]

@[simp] theorem record_accepted : (c.record b).2.accepted = (c.remember b).accepted := by
  obtain ⟨r, h⟩ := record_eq c b
  rw [h]

theorem record_sinceAdjustment : (c.record b).2.sinceAdjustment =
    if c.sinceAdjustment + 1 < c.window then c.sinceAdjustment + 1 else 0 := by
  obtain ⟨r, h⟩ := record_eq c b
  rw [h]

/-- A record's answer and the rate it leaves: nothing changes until the records since the last
look fill the window; then the share of acceptances in the remembered window is compared with
the thresholds. -/
theorem record_decision : ((c.record b).1, (c.record b).2.rate) =
    if c.sinceAdjustment + 1 < c.window then (none, c.rate)
    else
      let ratio : α := Scalar.ofNat (c.remember b).accepted /
        Scalar.ofNat (c.remember b).outcomes.size
      if ratio < c.settings.lowAcceptance then
        (some .slower, clampRate (c.rate + c.settings.step * (1.0 - c.rate)))
      else if c.settings.highAcceptance < ratio then
        (some .faster, clampRate (c.rate - c.settings.step * c.rate))
      else (none, c.rate) := by
  unfold record
  dsimp only
  simp only [window_remember, remember_sinceAdjustment, remember_settings, remember_rate]
  split
  · rfl
  · split
    · rfl
    · split <;> rfl

@[simp] theorem cool_settings : c.cool.settings = c.settings := rfl

@[simp] theorem cool_rate : c.cool.rate = c.rate := rfl

@[simp] theorem cool_outcomes : c.cool.outcomes = c.outcomes := rfl

@[simp] theorem cool_accepted : c.cool.accepted = c.accepted := rfl

@[simp] theorem cool_sinceAdjustment : c.cool.sinceAdjustment = c.sinceAdjustment := rfl

@[simp] theorem window_cool : c.cool.window = c.window := rfl

end Fields

/-! ## The window against the outcomes recorded -/

/-- The controller's window against the outcomes `bs` recorded so far: the queue holds the last
`window` of them in order and knows its length, the count is the acceptances among them, and
the records since the last look at the rate are `|bs|` modulo the window. -/
structure Tracks (c : Controller α) (bs : List Bool) : Prop where
  outcomes : c.outcomes.toList = bs.drop (bs.length - c.window)
  size : c.outcomes.size = c.outcomes.toList.length
  accepted : c.accepted = c.outcomes.toList.count true
  since : c.sinceAdjustment = bs.length % c.window

theorem tracks_start [Scalar α] (settings : AdaptiveSettings α) (temperature rate : α) :
    Tracks (start settings temperature rate) [] where
  outcomes := by rw [List.drop_nil]; rfl
  size := rfl
  accepted := rfl
  since := by simp [start]

variable {c : Controller α} {bs : List Bool}

theorem Tracks.length (h : Tracks c bs) : c.outcomes.toList.length = min bs.length c.window := by
  rw [h.outcomes, List.length_drop]
  omega

/-- Remembering an outcome slides the window by one: the oldest outcome leaves a full window,
and its acceptance, if it was one, leaves the count. -/
theorem Tracks.remember (h : Tracks c bs) (b : Bool) :
    (c.remember b).outcomes.toList = (bs ++ [b]).drop (bs.length + 1 - c.window) ∧
      (c.remember b).outcomes.size = (c.remember b).outcomes.toList.length ∧
      (c.remember b).accepted = (c.remember b).outcomes.toList.count true := by
  have hw := c.window_pos
  have hlen := h.length
  unfold Controller.remember
  dsimp only
  split
  · next hfull =>
      -- a full window: at least `window` outcomes were recorded, and the oldest leaves
      have hge : c.window ≤ bs.length := by
        rw [h.size, hlen] at hfull
        omega
      obtain ⟨x, l, hxl⟩ : ∃ x l, c.outcomes.toList = x :: l := by
        cases hq : c.outcomes.toList with
        | nil => rw [hq] at hlen; simp at hlen; omega
        | cons x l => exact ⟨x, l, rfl⟩
      obtain ⟨w', hpop, hl, hsize⟩ := Window.pop?_of_toList hxl
      rw [hpop]
      dsimp only
      have hrest : l = bs.drop (bs.length + 1 - c.window) := by
        have htail := congrArg List.tail (h.outcomes.symm.trans hxl)
        rw [List.tail_drop, List.tail_cons] at htail
        rw [← htail]
        congr 1
        omega
      have hcount : c.accepted = l.count true + if x then 1 else 0 := by
        rw [h.accepted, hxl, List.count_cons]
        cases x <;> rfl
      refine ⟨?_, ?_, ?_⟩
      · rw [Window.toList_push, hl, hrest,
          List.drop_append_of_le_length (by omega)]
      · rw [Window.size_push, Window.toList_push, List.length_append, hsize, h.size, hxl, hl]
        simp
      · rw [Window.toList_push, hl, List.count_append, hcount]
        cases x <;> cases b <;> simp
  · next hfull =>
      -- a window not yet full: every outcome so far is in it
      have hlt : bs.length < c.window := by
        rw [h.size, hlen] at hfull
        omega
      have hall : c.outcomes.toList = bs := by
        rw [h.outcomes, Nat.sub_eq_zero_of_le hlt.le, List.drop_zero]
      refine ⟨?_, ?_, ?_⟩
      · rw [Window.toList_push, hall, Nat.sub_eq_zero_of_le hlt, List.drop_zero]
      · rw [Window.size_push, Window.toList_push, List.length_append, h.size]
        rfl
      · rw [Window.toList_push, List.count_append, ← h.accepted]
        cases b <;> simp

/-- The next record looks at the rate exactly when it completes a multiple of the window. -/
theorem Tracks.looks_iff (h : Tracks c bs) :
    c.sinceAdjustment + 1 < c.window ↔ (bs.length + 1) % c.window ≠ 0 := by
  have hsince := mod_succ_eq (t := bs.length) c.window_pos
  rw [← h.since] at hsince
  rw [hsince]
  split <;> omega

variable [Scalar α]

/-- Every record keeps the window in step with the outcomes, the last one added. -/
theorem Tracks.record (h : Tracks c bs) (b : Bool) : Tracks (c.record b).2 (bs ++ [b]) := by
  obtain ⟨hout, hsize, hacc⟩ := h.remember b
  have hsince := mod_succ_eq (t := bs.length) c.window_pos
  rw [← h.since] at hsince
  refine ⟨?_, ?_, ?_, ?_⟩
  · rw [record_outcomes, window_record, List.length_append, List.length_singleton]
    exact hout
  · rw [record_outcomes]
    exact hsize
  · rw [record_accepted, record_outcomes]
    exact hacc
  · rw [record_sinceAdjustment, window_record, List.length_append, List.length_singleton,
      hsince]
    split <;> split <;> omega

theorem Tracks.cool (h : Tracks c bs) : Tracks c.cool bs :=
  ⟨h.outcomes, h.size, h.accepted, h.since⟩

/-- The calls keep the window in step with the outcomes they record, and the settings as they
were. -/
theorem Tracks.replay (h : Tracks c bs) (calls : List Call) :
    Tracks (c.replay calls) (bs ++ calls.filterMap Call.outcome?) ∧
      (c.replay calls).settings = c.settings := by
  induction calls generalizing c bs with
  | nil => exact ⟨by simpa using h, rfl⟩
  | cons call rest ih =>
      cases call with
      | record b =>
          obtain ⟨ht, hs⟩ := ih (h.record b)
          have hbs : bs ++ (Call.record b :: rest).filterMap Call.outcome? =
              bs ++ [b] ++ rest.filterMap Call.outcome? := by
            simp [Call.outcome?]
          rw [hbs]
          exact ⟨ht, hs.trans (record_settings c b)⟩
      | cool =>
          -- a cooling step records nothing
          exact ih h.cool

/-! ## When a record looks at the rate -/

/-- The next record, after the records `bs`: unless it completes a multiple of the window it
leaves the rate alone; otherwise the window is full, and the share of acceptances among its
last `window` outcomes, this one included, is compared with the thresholds, strictly: below the
lower one the rate moves a step towards `1`, above the upper one a step towards `0`. -/
theorem Tracks.decision (h : Tracks c bs) (b : Bool) :
    let ratio : α := Scalar.ofNat (((bs ++ [b]).drop (bs.length + 1 - c.window)).count true) /
      Scalar.ofNat c.window
    ((c.record b).1, (c.record b).2.rate) =
      if (bs.length + 1) % c.window ≠ 0 then (none, c.rate)
      else if ratio < c.settings.lowAcceptance then
        (some .slower, clampRate (c.rate + c.settings.step * (1.0 - c.rate)))
      else if c.settings.highAcceptance < ratio then
        (some .faster, clampRate (c.rate - c.settings.step * c.rate))
      else (none, c.rate) := by
  intro ratio
  obtain ⟨hout, hsize, hacc⟩ := h.remember b
  rw [record_decision]
  by_cases hlt : c.sinceAdjustment + 1 < c.window
  · rw [if_pos hlt, if_pos (h.looks_iff.1 hlt)]
  · rw [if_neg hlt, if_neg (fun hne => hlt (h.looks_iff.2 hne))]
    -- the window is full: its share is the one the statement names
    have hle : c.window ≤ bs.length + 1 := by
      have hz : (bs.length + 1) % c.window = 0 :=
        Classical.not_not.1 (fun hne => hlt (h.looks_iff.2 hne))
      exact Nat.le_of_mod_lt (by omega)
    have hfull : (c.remember b).outcomes.size = c.window := by
      rw [hsize, hout, List.length_drop, List.length_append, List.length_singleton]
      omega
    have hratio : (Scalar.ofNat (c.remember b).accepted /
        Scalar.ofNat (c.remember b).outcomes.size : α) = ratio := by
      rw [hacc, hout, hfull]
    dsimp only
    rw [hratio]

/-! ## The window under any calls -/

/-- After any records `bs`, with cooling steps anywhere between them, the controller's queue
holds the last `min |bs| w` outcomes in order, `w = max window 1`, and its count the acceptances
among them, so a full window whose oldest outcome is an acceptance counts at least one; `|bs|`
modulo `w` records have passed since the rate was last looked at; the acceptance rate is that
count over that length, none before any record; and the next record looks at the rate only when
it completes a multiple of `w`, comparing the share of acceptances among the last `w` outcomes
with the thresholds. -/
theorem window_slides (settings : AdaptiveSettings α) (temperature rate : α)
    (calls : List Call) :
    let c := (start settings temperature rate).replay calls
    let bs := calls.filterMap Call.outcome?
    let w := max settings.window 1
    let recent := bs.drop (bs.length - w)
    c.outcomes.toList = recent ∧ c.outcomes.size = min bs.length w ∧
      c.accepted = recent.count true ∧
      (c.outcomes.size = w → c.outcomes.toList.head? = some true → 0 < c.accepted) ∧
      c.sinceAdjustment = bs.length % w ∧
      c.acceptanceRate = (if bs.length = 0 then none
        else some (Scalar.ofNat (recent.count true) / Scalar.ofNat (min bs.length w))) ∧
      ∀ b : Bool,
        let ratio : α := Scalar.ofNat (((bs ++ [b]).drop (bs.length + 1 - w)).count true) /
          Scalar.ofNat w
        ((c.record b).1, (c.record b).2.rate) =
          if (bs.length + 1) % w ≠ 0 then (none, c.rate)
          else if ratio < settings.lowAcceptance then
            (some .slower, clampRate (c.rate + settings.step * (1.0 - c.rate)))
          else if settings.highAcceptance < ratio then
            (some .faster, clampRate (c.rate - settings.step * c.rate))
          else (none, c.rate) := by
  intro c bs w recent
  obtain ⟨h, hset⟩ := (tracks_start settings temperature rate).replay calls
  rw [List.nil_append] at h
  have hw : c.window = w := by
    show max c.settings.window 1 = w
    rw [hset]
    rfl
  have hout : c.outcomes.toList = recent := by rw [h.outcomes, hw]
  have hlen : c.outcomes.size = min bs.length w := by rw [h.size, h.length, hw]
  have hacc : c.accepted = recent.count true := by rw [h.accepted, hout]
  refine ⟨hout, hlen, hacc, fun _ hhead => ?_, by rw [h.since, hw], ?_, fun b => ?_⟩
  · -- the oldest outcome is among those counted
    rw [h.accepted]
    obtain ⟨l, hl⟩ : ∃ l, c.outcomes.toList = true :: l := by
      cases hq : c.outcomes.toList with
      | nil => rw [hq] at hhead; cases hhead
      | cons x l =>
          rw [hq] at hhead
          cases hhead
          exact ⟨l, rfl⟩
    rw [hl, List.count_cons_self]
    exact Nat.succ_pos _
  · unfold acceptanceRate
    rw [hlen, hacc]
    by_cases hn : bs.length = 0
    · rw [if_pos (by rw [hn]; exact Nat.zero_min w), if_pos hn]
    · have hwpos : 0 < w := hw ▸ c.window_pos
      rw [if_neg (by omega), if_neg hn]
  · have hd := h.decision b
    rw [hw, hset] at hd
    exact hd

end Controller

end Annealing.Adaptive
