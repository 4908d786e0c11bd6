import Annealing.Proofs.Turns

/-!
# The register keeps the best evaluation

A run that logs its evaluations keeps one invariant at every step boundary (`Ledger`): the
register is one that offers reach, holds a logged evaluation, and covers every logged energy
that is no NaN, being filled and at or below it. A walking worker keeps its own
(`Walk.Sound`): its current and best solutions are logged with their energies, and the
register's energy is at or below the best, which is at or below the current.

Within an iteration both break for a moment: the move logs a neighbour that may lie below
everything, and only the publication of the new local best covers it again. So the move and
the keeping of the best are taken together (`moveKeep_advances`), and every piece of an
iteration is shown to `Advance`: keep both invariants, let the register only fall and the log
only grow, never raise the best, and leave the register holding the walk's best whenever the
register changed (`Held`). A failing piece logs only NaN energies, so the ledger survives a
failure as well.
-/

namespace Annealing

open Annealing.Random

variable {σ ω S : Type}

/-- What a logging run keeps at every step boundary: the register is one that offers reach,
holds a logged evaluation, and covers every logged energy that is no NaN. -/
structure Ledger (log : List (S × Float)) (reg : Register S) : Prop where
  valid : reg.Valid
  stored : ∀ s e, reg.best = some (s, e) → (s, e) ∈ log
  covers : ∀ q ∈ log, q.2.isNaN = false → reg.Covers q.2

namespace Ledger

variable {log : List (S × Float)} {reg : Register S}

theorem empty : Ledger ([] : List (S × Float)) Register.empty where
  valid := Register.empty_valid
  stored s e h := by simp at h
  covers q hq := by simp at hq

/-- Logging an evaluation the register covers, or a NaN one. -/
theorem append (h : Ledger log reg) {q : S × Float} (hq : q.2.isNaN = false → reg.Covers q.2) :
    Ledger (log ++ [q]) reg where
  valid := h.valid
  stored s e hbest := List.mem_append_left _ (h.stored s e hbest)
  covers p hp hnan := by
    rcases List.mem_append.1 hp with hp | hp
    · exact h.covers p hp hnan
    · rw [List.mem_singleton.1 hp] at hnan ⊢
      exact hq hnan

theorem append_nan (h : Ledger log reg) {extra : List (S × Float)}
    (hnan : ∀ q ∈ extra, q.2.isNaN = true) : Ledger (log ++ extra) reg where
  valid := h.valid
  stored s e hbest := List.mem_append_left _ (h.stored s e hbest)
  covers p hp hno := by
    rcases List.mem_append.1 hp with hp | hp
    · exact h.covers p hp hno
    · rw [hnan p hp] at hno
      cases hno

theorem append_offer (h : Ledger log reg) {s : S} {e : Float} (he : e.isNaN = false) :
    Ledger (log ++ [(s, e)]) (reg.offer e s).2 := by
  refine ⟨h.valid.offer e s, fun s' e' hbest => ?_, fun q hq hno => ?_⟩
  · rcases Register.offer_best h.valid e s with hsame | hnew
    · exact List.mem_append_left _ (h.stored s' e' (hsame ▸ hbest))
    · rw [hnew] at hbest
      obtain ⟨rfl, rfl⟩ := Prod.mk.inj (Option.some.inj hbest)
      exact List.mem_append_right _ (List.mem_singleton_self _)
  · rcases List.mem_append.1 hq with hq | hq
    · exact (h.covers q hq hno).offer h.valid e s
    · rw [List.mem_singleton.1 hq]
      exact Register.offer_covers h.valid s he

theorem best_eq_none_iff (h : Ledger log reg) : reg.best = none ↔ ∀ q ∈ log, q.2.isNaN = true := by
  constructor
  · intro hnone q hq
    cases hnan : q.2.isNaN
    · exact absurd hnone (h.covers q hq hnan).1
    · rfl
  · intro hnan
    rcases hb : reg.best with _ | ⟨s, e⟩
    · rfl
    · have he : e.isNaN = false := Register.bestEnergy_of_best hb ▸ h.valid.bestEnergy_isNaN
      rw [hnan _ (h.stored s e hb)] at he
      cases he

theorem least (h : Ledger log reg) {s : S} {e : Float} (hb : reg.best = some (s, e)) :
    (s, e) ∈ log ∧ e.isNaN = false ∧ ∀ q ∈ log, ¬ q.2 < e := by
  have hE := Register.bestEnergy_of_best hb
  refine ⟨h.stored s e hb, hE ▸ h.valid.bestEnergy_isNaN, fun q hq => ?_⟩
  cases hnan : q.2.isNaN
  · exact Float.not_lt_of_le (hE ▸ (h.covers q hq hnan).2)
  · exact Float.not_lt_of_isNaN_left hnan

end Ledger

/-- A walk the register has seen: its current and best solutions were evaluated to their
energies, the register covers the best energy, and the best is at or below the current. -/
structure Walk.Sound (log : List (S × Float)) (reg : Register S) (w : Walk S) : Prop where
  current_mem : (w.current, w.currentEnergy) ∈ log
  best_mem : (w.best, w.bestEnergy) ∈ log
  covers : reg.Covers w.bestEnergy
  best_le : w.bestEnergy ≤ w.currentEnergy

/-- A later point of a logging run: the log has only grown, and the register still covers
whatever it covered. -/
structure Later (x y : Shared (σ × List (S × Float)) ω S) : Prop where
  log : x.log <+: y.log
  covers : ∀ e, x.register.Covers e → y.register.Covers e

namespace Later

theorem refl (x : Shared (σ × List (S × Float)) ω S) : Later x x :=
  ⟨List.prefix_refl _, fun _ h => h⟩

theorem trans {x y z : Shared (σ × List (S × Float)) ω S} (hxy : Later x y) (hyz : Later y z) :
    Later x z :=
  ⟨hxy.log.trans hyz.log, fun e h => hyz.covers e (hxy.covers e h)⟩

theorem of_append {x y : Shared (σ × List (S × Float)) ω S} {extra : List (S × Float)}
    (hreg : y.register = x.register) (hlog : y.log = x.log ++ extra) : Later x y :=
  ⟨hlog ▸ List.prefix_append _ _, fun _ h => hreg ▸ h⟩

theorem of_offer {x y : Shared (σ × List (S × Float)) ω S} (hx : x.register.Valid)
    {extra : List (S × Float)} {e : Float} {s : S}
    (hreg : y.register = (x.register.offer e s).2) (hlog : y.log = x.log ++ extra) :
    Later x y :=
  ⟨hlog ▸ List.prefix_append _ _, fun _ h => hreg ▸ h.offer hx e s⟩

end Later

theorem Walk.Sound.later {x y : Shared (σ × List (S × Float)) ω S} {w : Walk S}
    (hs : Walk.Sound x.log x.register w) (h : Later x y) : Walk.Sound y.log y.register w where
  current_mem := h.log.subset hs.current_mem
  best_mem := h.log.subset hs.best_mem
  covers := h.covers _ hs.covers
  best_le := hs.best_le

/-- How a worker's turn leaves the register, with the worker's best `b` becoming `b'`: the
register now holds the new best, or it is unchanged and then either the best is too or the
register did not hold the old one. So whoever held the register before still holds it, unless
this worker took it over. -/
def Held (reg reg' : Register S) (b b' : S × Float) : Prop :=
  reg'.best = some b' ∨ reg' = reg ∧ (b' = b ∨ reg.best ≠ some b)

namespace Held

theorem refl (reg : Register S) (b : S × Float) : Held reg reg b b :=
  .inr ⟨rfl, .inl rfl⟩

theorem trans {r₀ r₁ r₂ : Register S} {b₀ b₁ b₂ : S × Float} (h₀₁ : Held r₀ r₁ b₀ b₁)
    (h₁₂ : Held r₁ r₂ b₁ b₂) : Held r₀ r₂ b₀ b₂ := by
  rcases h₁₂ with htake | ⟨rfl, hsame | hnot⟩
  · exact .inl htake
  · subst hsame
    exact h₀₁
  · -- the middle register did not hold the middle best, so it did not take it over
    rcases h₀₁ with htake | ⟨rfl, hsame | hnot₀⟩
    · exact absurd htake hnot
    · subst hsame
      exact .inr ⟨rfl, .inr hnot⟩
    · exact .inr ⟨rfl, .inr hnot₀⟩

/-- Offering an energy strictly below the worker's best: a register that held that best
takes the offer. -/
theorem offer {reg : Register S} (hr : reg.Valid) {b : S × Float} {s : S} {c : Float}
    (hc : c.isNaN = false) (hlt : c < b.2) : Held reg (reg.offer c s).2 b (s, c) := by
  rw [Register.offer_eq hr.bestEnergy_isNaN]
  split
  · exact .inl rfl
  · next hnot =>
      refine .inr ⟨rfl, .inr fun hheld => hnot ⟨hc, .inr ?_⟩⟩
      rw [Register.bestEnergy_of_best hheld]
      exact hlt

end Held

/-- A piece of an iteration, taking the walk `w` at `x` to `w'` at `y`: it keeps the ledger
and the walk sound, reaches a later point, does not raise the best, and leaves the register
holding the walk's best if it changed the register. -/
structure Advances (x : Shared (σ × List (S × Float)) ω S) (w : Walk S)
    (y : Shared (σ × List (S × Float)) ω S) (w' : Walk S) : Prop where
  ledger : Ledger y.log y.register
  later : Later x y
  sound : Walk.Sound y.log y.register w'
  best_le : w'.bestEnergy ≤ w.bestEnergy
  held : Held x.register y.register (w.best, w.bestEnergy) (w'.best, w'.bestEnergy)

namespace Advances

variable {x y z : Shared (σ × List (S × Float)) ω S} {w w' w'' : Walk S}

theorem refl (hl : Ledger x.log x.register) (hs : Walk.Sound x.log x.register w) :
    Advances x w x w :=
  ⟨hl, Later.refl x, hs, Float.le_refl_of_isNaN_eq_false hs.covers.isNaN, Held.refl _ _⟩

theorem congr (h : Advances x w y w') (hw : w'.SameSolutions w'') : Advances x w y w'' := by
  obtain ⟨hcur, hcurE, hbest, hbestE⟩ := hw
  exact ⟨h.ledger, h.later, ⟨hcur ▸ hcurE ▸ h.sound.current_mem, hbest ▸ hbestE ▸ h.sound.best_mem,
    hbestE ▸ h.sound.covers, hbestE ▸ hcurE ▸ h.sound.best_le⟩, hbestE ▸ h.best_le,
    hbest ▸ hbestE ▸ h.held⟩

theorem trans (h₁ : Advances x w y w') (h₂ : Advances y w' z w'') : Advances x w z w'' :=
  ⟨h₂.ledger, h₁.later.trans h₂.later, h₂.sound, Float.le_trans h₂.best_le h₁.best_le,
    h₁.held.trans h₂.held⟩

/-- A piece that touches neither the register nor the log nor the walk's solutions. -/
theorem untracked {g g' : Stream} (h : Advances x w y w') (hu : Untracked (y, g) (z, g')) :
    Advances x w z w' := by
  obtain ⟨hreg, hlog⟩ := hu
  have hreg : z.register = y.register := hreg
  have hlog : z.log = y.log := hlog
  exact ⟨hreg ▸ hlog ▸ h.ledger, h.later.trans (Later.of_append hreg (hlog.trans
    (List.append_nil _).symm)), hreg ▸ hlog ▸ h.sound, h.best_le, hreg ▸ h.held⟩

end Advances

theorem Ledger.quiet {x y : Shared (σ × List (S × Float)) ω S × Stream}
    (hl : Ledger x.1.log x.1.register) (hq : Quiet x y) :
    Ledger y.1.log y.1.register ∧ Later x.1 y.1 := by
  obtain ⟨hreg, extra, hlog, hnan⟩ := hq
  exact ⟨hreg ▸ hlog ▸ hl.append_nan hnan, Later.of_append hreg hlog⟩

/-! ## The pieces of an iteration -/

variable {x y : Shared (σ × List (S × Float)) ω S × Stream}

/-- The move and the keeping of the best, together: the neighbour the move logs may lie below
everything, and is covered again by the publication of the new best, or through the old best
when there is none. -/
theorem moveKeep_advances {cx : Setup σ ω S} {i it : Nat} {w w₁ w₂ : Walk S}
    {y₁ : Shared (σ × List (S × Float)) ω S × Stream}
    (hl : Ledger x.1.log x.1.register) (hs : Walk.Sound x.1.log x.1.register w)
    (hmove : Turn.move cx.recording i it w x = .ok w₁ y₁)
    (hkeep : Turn.keepBest cx.recording.config it w₁ y₁ = .ok w₂ y) :
    Advances x.1 w y.1 w₂ := by
  obtain ⟨hreg₁, hbest₁, hbestE₁, -, cand, c, hc, hlog₁, hcur⟩ := Turn.move_ok hmove
  obtain ⟨hlog₂, hcur₂, hcurE₂, -, hkeep⟩ := Turn.keepBest_ok hkeep
  have hr := hl.valid
  have hlog : y.1.log = x.1.log ++ [(cand, c)] := hlog₂.trans hlog₁
  have hlast : (cand, c) ∈ y.1.log := hlog ▸ List.mem_append_right _ (List.mem_singleton_self _)
  rcases hkeep with ⟨hlt, hb₂, hbE₂, hreg₂⟩ | ⟨hnlt, hb₂, hbE₂, hreg₂⟩
  · -- a new best: the move took the neighbour, and its publication covers it
    have htaken : w₁.current = cand ∧ w₁.currentEnergy = c := by
      rcases hcur with htaken | ⟨-, hcurE₁, -⟩
      · exact htaken
      · rw [hcurE₁, hbestE₁] at hlt
        exact absurd hlt (Float.not_lt_of_le hs.best_le)
    obtain ⟨hcand, hcE⟩ := htaken
    rw [hreg₁, hcand, hcE, Register.guard_offer hr.bestEnergy_isNaN] at hreg₂
    rw [hcE, hbestE₁] at hlt
    have hnew : w₂.best = cand ∧ w₂.bestEnergy = c := ⟨hb₂.trans hcand, hbE₂.trans hcE⟩
    refine ⟨hreg₂ ▸ hlog ▸ hl.append_offer hc, Later.of_offer hr hreg₂ hlog, ⟨?_, ?_, ?_, ?_⟩,
      ?_, ?_⟩
    · rw [hcur₂, hcurE₂, hcand, hcE]
      exact hlast
    · rw [hnew.1, hnew.2]
      exact hlast
    · rw [hnew.2, hreg₂]
      exact Register.offer_covers hr cand hc
    · rw [hnew.2, hcurE₂, hcE]
      exact Float.le_refl_of_isNaN_eq_false hc
    · rw [hnew.2]
      exact Float.le_of_lt hlt
    · rw [hnew.1, hnew.2, hreg₂]
      exact Held.offer hr hc hlt
  · -- no new best: the register is unchanged, and covers the neighbour through the best
    rw [hreg₁] at hreg₂
    rw [hbestE₁] at hnlt
    have hcurNaN : w₁.currentEnergy.isNaN = false := by
      rcases hcur with ⟨-, hcE⟩ | ⟨-, hcE, -⟩
      · exact hcE ▸ hc
      · exact hcE ▸ Float.isNaN_right_of_le hs.best_le
    have hbest_le : w.bestEnergy ≤ w₁.currentEnergy :=
      Float.le_of_not_lt hcurNaN hs.covers.isNaN hnlt
    have hcovers : x.1.register.Covers c := by
      rcases hcur with ⟨-, hcE⟩ | ⟨-, hcE, hnot⟩
      · exact hcE ▸ hs.covers.trans hbest_le
      · exact (hs.covers.trans hs.best_le).trans
          (Float.le_of_lt (Float.lt_of_not_le hc (Float.isNaN_right_of_le hs.best_le) hnot))
    have hsame : w₂.best = w.best ∧ w₂.bestEnergy = w.bestEnergy :=
      ⟨hb₂.trans hbest₁, hbE₂.trans hbestE₁⟩
    refine ⟨hreg₂ ▸ hlog ▸ hl.append fun _ => hcovers, Later.of_append hreg₂ hlog,
      ⟨?_, ?_, ?_, ?_⟩, ?_, ?_⟩
    · rw [hcur₂, hcurE₂]
      rcases hcur with ⟨hcand, hcE⟩ | ⟨hcand, hcE, -⟩
      · rw [hcand, hcE]
        exact hlast
      · rw [hcand, hcE, hlog]
        exact List.mem_append_left _ hs.current_mem
    · rw [hsame.1, hsame.2, hlog]
      exact List.mem_append_left _ hs.best_mem
    · rw [hsame.2, hreg₂]
      exact hs.covers
    · rw [hsame.2, hcurE₂]
      exact hbest_le
    · rw [hsame.2]
      exact Float.le_refl_of_isNaN_eq_false hs.covers.isNaN
    · rw [hsame.1, hsame.2, hreg₂]
      exact Held.refl _ _

/-- A restart keeps the walk advancing, and a fresh solution it adopts lies strictly below
both the walk's current and best energies. -/
theorem restart_advances {cx : Setup σ ω S} {i it : Nat} {w w' : Walk S}
    (hl : Ledger x.1.log x.1.register) (hs : Walk.Sound x.1.log x.1.register w)
    (h : Turn.restart cx.recording i it w x = .ok w' y) :
    Advances x.1 w y.1 w' ∧
      (w.SameSolutions w' ∨ w'.current = w'.best ∧ w'.currentEnergy = w'.bestEnergy ∧
        w'.bestEnergy < w.bestEnergy ∧ w'.currentEnergy < w.currentEnergy) := by
  have hr := hl.valid
  rcases Turn.restart_ok h with ⟨hu, hsame⟩ | ⟨fresh, f, hf, hlog, hreg, hadopt⟩
  · exact ⟨((Advances.refl hl hs).untracked hu).congr hsame, .inl hsame⟩
  have hledger : Ledger y.1.log y.1.register := hreg ▸ hlog ▸ hl.append_offer hf
  have hlater : Later x.1 y.1 := Later.of_offer hr hreg hlog
  have hlast : (fresh, f) ∈ y.1.log :=
    hlog ▸ List.mem_append_right _ (List.mem_singleton_self _)
  rcases hadopt with ⟨htake, hcur, hcurE, hbest, hbestE⟩ | ⟨hrefuse, hsame⟩
  · -- the register took the fresh solution, so it lies below the register, hence below the best
    obtain ⟨-, hbelow, hstore⟩ := Register.offer_taken hr htake
    have hlt : f < w.bestEnergy := by
      rcases hbelow with hnone | hlt
      · exact absurd hnone hs.covers.1
      · exact Float.lt_of_lt_of_le hlt hs.covers.2
    refine ⟨⟨hledger, hlater, ⟨?_, ?_, ?_, ?_⟩, ?_, ?_⟩, .inr ⟨hcur.trans hbest.symm,
      hcurE.trans hbestE.symm, hbestE ▸ hlt, hcurE ▸ Float.lt_of_lt_of_le hlt hs.best_le⟩⟩
    · rw [hcur, hcurE]
      exact hlast
    · rw [hbest, hbestE]
      exact hlast
    · rw [hbestE, hreg]
      exact Register.offer_covers hr fresh hf
    · rw [hbestE, hcurE]
      exact Float.le_refl_of_isNaN_eq_false hf
    · rw [hbestE]
      exact Float.le_of_lt hlt
    · rw [hbest, hbestE, hreg, hstore]
      exact .inl rfl
  · -- refused: the register and the walk are as they were
    rw [Register.offer_refused hr hrefuse] at hreg
    refine ⟨Advances.congr ⟨hledger, hlater, (hs.later hlater), Float.le_refl_of_isNaN_eq_false
      hs.covers.isNaN, hreg ▸ Held.refl _ _⟩ hsame, .inl hsame⟩

/-- A walk starts sound, and the register holds its best unless it is unchanged. -/
theorem begin_ledger {cx : Setup σ ω S} {i : Nat} {w : Walk S}
    (hl : Ledger x.1.log x.1.register) (h : Turn.begin cx.recording i x = .ok w y) :
    Ledger y.1.log y.1.register ∧ Later x.1 y.1 ∧ Walk.Sound y.1.log y.1.register w ∧
      (y.1.register = x.1.register ∨ y.1.register.best = some (w.best, w.bestEnergy)) := by
  have hr := hl.valid
  obtain ⟨hcur, hcurE, he, hlog, hreg⟩ := Turn.begin_ok h
  rw [Register.guard_offer hr.bestEnergy_isNaN] at hreg
  have hlast : (w.best, w.bestEnergy) ∈ y.1.log :=
    hlog ▸ List.mem_append_right _ (List.mem_singleton_self _)
  refine ⟨hreg ▸ hlog ▸ hl.append_offer he, Later.of_offer hr hreg hlog,
    ⟨hcur ▸ hcurE ▸ hlast, hlast, hreg ▸ Register.offer_covers hr _ he,
      by rw [hcurE]; exact Float.le_refl_of_isNaN_eq_false he⟩, ?_⟩
  rcases Register.offer_snd hr w.bestEnergy w.best with hsame | hstore
  · exact .inl (hreg.trans hsame)
  · exact .inr (by rw [hreg, hstore]; rfl)

theorem begin_error_ledger {cx : Setup σ ω S} {i : Nat} {e : RunError}
    (hl : Ledger x.1.log x.1.register) (h : Turn.begin cx.recording i x = .error e y) :
    Ledger y.1.log y.1.register ∧ Later x.1 y.1 := by
  rcases Turn.begin_error h with hq | ⟨s, v, hv, hlog, hreg⟩
  · exact hl.quiet hq
  · rw [Register.guard_offer hl.valid.bestEnergy_isNaN] at hreg
    exact ⟨hreg ▸ hlog ▸ hl.append_offer hv, Later.of_offer hl.valid hreg hlog⟩

/-! ## An iteration -/

/-- An iteration up to its restart advances the walk, and ends it, if it does, with the walk
it reached. -/
theorem advance_advances {cx : Setup σ ω S} {i it : Nat} {w : Walk S} {r : Phase S ⊕ Walk S}
    (hl : Ledger x.1.log x.1.register) (hs : Walk.Sound x.1.log x.1.register w)
    (h : Turn.advance cx.recording i it w x = .ok r y) :
    ∃ w', Advances x.1 w y.1 w' ∧
      (r = .inr w' ∨ ∃ t, r = .inl (.finished w'.best (w'.stats cx.config i t))) := by
  unfold Turn.advance at h
  dsimp only at h
  split at h
  · obtain ⟨rfl, rfl⟩ := EStateM.Result.ok.inj h
    exact ⟨w, Advances.refl hl hs, .inr ⟨_, rfl⟩⟩
  obtain ⟨sh, y₀, hshared, hrest₀⟩ := bind_eq_ok.1 h
  obtain ⟨rfl, rfl⟩ := EStateM.Result.ok.inj hshared
  clear h
  -- the abort flag and the cancel token end the walk where it is
  split at hrest₀
  · obtain ⟨rfl, rfl⟩ := EStateM.Result.ok.inj hrest₀
    exact ⟨w, Advances.refl hl hs, .inr ⟨_, rfl⟩⟩
  split at hrest₀
  · obtain ⟨rfl, rfl⟩ := EStateM.Result.ok.inj hrest₀
    exact ⟨w, Advances.refl hl hs, .inr ⟨_, rfl⟩⟩
  obtain ⟨w₁, y₁, hmove, hrest₁⟩ := bind_eq_ok.1 hrest₀
  obtain ⟨w₂, y₂, hkeep, hrest₂⟩ := bind_eq_ok.1 hrest₁
  obtain ⟨stop, y₃, hobserve, hrest₃⟩ := bind_eq_ok.1 hrest₂
  clear hrest₀ hrest₁ hrest₂
  have hadv := (moveKeep_advances hl hs hmove hkeep).untracked (Turn.observe_ok hobserve)
  refine ⟨w₂, ?_⟩
  split at hrest₃
  · obtain ⟨rfl, rfl⟩ := EStateM.Result.ok.inj hrest₃
    exact ⟨hadv, .inr ⟨_, rfl⟩⟩
  split at hrest₃
  · obtain ⟨rfl, rfl⟩ := EStateM.Result.ok.inj hrest₃
    exact ⟨hadv, .inr ⟨_, rfl⟩⟩
  · obtain ⟨rfl, rfl⟩ := EStateM.Result.ok.inj hrest₃
    exact ⟨hadv, .inl rfl⟩

theorem advance_error_ledger {cx : Setup σ ω S} {i it : Nat} {w : Walk S} {e : RunError}
    (hl : Ledger x.1.log x.1.register) (hs : Walk.Sound x.1.log x.1.register w)
    (h : Turn.advance cx.recording i it w x = .error e y) :
    Ledger y.1.log y.1.register ∧ Later x.1 y.1 := by
  unfold Turn.advance at h
  dsimp only at h
  split at h
  · cases h
  rcases bind_eq_error.1 h with hshared | ⟨sh, y₀, hshared, hrest₀⟩
  · cases hshared
  obtain ⟨rfl, rfl⟩ := EStateM.Result.ok.inj hshared
  clear h
  split at hrest₀
  · cases hrest₀
  split at hrest₀
  · cases hrest₀
  rcases bind_eq_error.1 hrest₀ with hmove | ⟨w₁, y₁, hmove, hrest₁⟩
  · exact hl.quiet (Turn.move_error hmove)
  rcases bind_eq_error.1 hrest₁ with hkeep | ⟨w₂, y₂, hkeep, hrest₂⟩
  · exact (Turn.keepBest_error hkeep).elim
  have hadv := moveKeep_advances hl hs hmove hkeep
  -- only the hooks can fail now, and they touch neither the register nor the log
  rcases bind_eq_error.1 hrest₂ with hobserve | ⟨stop, y₃, hobserve, hrest₃⟩
  · have hadv := hadv.untracked (Turn.observe_error hobserve)
    exact ⟨hadv.ledger, hadv.later⟩
  · split at hrest₃
    · cases hrest₃
    split at hrest₃ <;> cases hrest₃

/-- The best solution of a phase, with its energy: a walk's, or the one a finished worker
reports. -/
def Phase.best? : Phase S → Option (S × Float)
  | .walking _ w => some (w.best, w.bestEnergy)
  | .finished best st => some (best, st.bestEnergy)
  | .start | .failed _ => none

/-- A phase the register has seen: a sound walk, or a finished worker whose best is a logged
evaluation the register covers. -/
def Phase.Sound (log : List (S × Float)) (reg : Register S) : Phase S → Prop
  | .walking _ w => Walk.Sound log reg w
  | .finished best st => (best, st.bestEnergy) ∈ log ∧ reg.Covers st.bestEnergy
  | .start | .failed _ => True

/-- A whole iteration keeps the ledger and gives a sound phase whose best is at or below the
walk's, holding the register if it changed it. -/
theorem iterate_advances {cx : Setup σ ω S} {i it : Nat} {w : Walk S} {phase : Phase S}
    (hl : Ledger x.1.log x.1.register) (hs : Walk.Sound x.1.log x.1.register w)
    (h : Turn.iterate cx.recording i it w x = .ok phase y) :
    Ledger y.1.log y.1.register ∧ Later x.1 y.1 ∧ phase.Sound y.1.log y.1.register ∧
      ∃ b, phase.best? = some b ∧ b.2 ≤ w.bestEnergy ∧
        Held x.1.register y.1.register (w.best, w.bestEnergy) b := by
  unfold Turn.iterate at h
  obtain ⟨r, y₁, hadvance, hrest⟩ := bind_eq_ok.1 h
  obtain ⟨w₁, hadv, hr⟩ := advance_advances hl hs hadvance
  rcases hr with rfl | ⟨t, rfl⟩
  · -- the restart, then the cooling, which touches no solution
    obtain ⟨w₂, y₂, hrestart, hcool⟩ := bind_eq_ok.1 hrest
    obtain ⟨rfl, rfl⟩ := EStateM.Result.ok.inj hcool
    have hcooled : w₂.SameSolutions { w₂ with controller := w₂.controller.map (·.cool) } :=
      ⟨rfl, rfl, rfl, rfl⟩
    have hadv := (hadv.trans (restart_advances hadv.ledger hadv.sound hrestart).1).congr hcooled
    exact ⟨hadv.ledger, hadv.later, hadv.sound, _, rfl, hadv.best_le, hadv.held⟩
  · obtain ⟨rfl, rfl⟩ := EStateM.Result.ok.inj hrest
    exact ⟨hadv.ledger, hadv.later, ⟨hadv.sound.best_mem, hadv.sound.covers⟩, _, rfl,
      hadv.best_le, hadv.held⟩

theorem iterate_error_ledger {cx : Setup σ ω S} {i it : Nat} {w : Walk S} {e : RunError}
    (hl : Ledger x.1.log x.1.register) (hs : Walk.Sound x.1.log x.1.register w)
    (h : Turn.iterate cx.recording i it w x = .error e y) :
    Ledger y.1.log y.1.register ∧ Later x.1 y.1 := by
  unfold Turn.iterate at h
  rcases bind_eq_error.1 h with hadvance | ⟨r, y₁, hadvance, hrest⟩
  · exact advance_error_ledger hl hs hadvance
  obtain ⟨w₁, hadv, hr⟩ := advance_advances hl hs hadvance
  rcases hr with rfl | ⟨t, rfl⟩
  · rcases bind_eq_error.1 hrest with hrestart | ⟨w₂, y₂, hrestart, hcool⟩
    · obtain ⟨hledger, hlater⟩ := hadv.ledger.quiet (Turn.restart_error hrestart)
      exact ⟨hledger, hadv.later.trans hlater⟩
    · cases hcool
  · cases hrest

end Annealing
