import NodeInventory.Proofs.Lock.Protocol

/-!
# Keys that run out

A renewal extends the key, and a run that is done removes it, without looking at who set it. So a
run that has lost the key may extend or remove the key of another
(`late_commands_meet_a_later_key`).

This is so only after a key has run out under the run that had set it. The reason is that a key that
is set cannot be set again: as long as no key runs out under its run, the run that holds the lock is
the one that set the key (`Guarded`), and so there is only one.
-/

namespace NodeInventory.Lock

open Simulation (Kernel Renewal)

variable {c : Scene} {b b' : Board} {s t : State} {e : Event} {i : ℕ}

/-! ## Renewals -/

theorem stopRenewal_eq_filter {key : String} {rs : List Renewal}
    (h : ∀ r ∈ rs, r.key = key ∧ r.busy = none) :
    (Kernel.stopRenewal i key rs).2 = rs.filter fun r ↦ r.agent ≠ i := by
  induction rs with
  | nil => rfl
  | cons r rs ih =>
    obtain ⟨⟨hkey, hbusy⟩, hrs⟩ := List.forall_mem_cons.mp h
    rw [Kernel.stopRenewal, List.filter_cons, ← ih hrs]
    by_cases hi : r.agent = i <;> simp [hi, hkey, hbusy]

/-- Only runs that hold the lock extend the key. -/
def Board.Tended (c : Scene) (b : Board) : Prop :=
  ∀ r ∈ b.renewals, b.standing r.agent = .kept ∧ r.key = c.key ∧ r.busy = none

theorem Board.Tended.place {st : Standing} (hb : b.Tended c) (hi : b.standing i ≠ .kept) :
    (b.place i st).Tended c := by
  intro r hr
  obtain ⟨hkept, hrest⟩ := hb r hr
  have hne : r.agent ≠ i := by
    rintro rfl
    exact hi hkept
  exact ⟨(Function.update_of_ne hne _ _).trans hkept, hrest⟩

theorem Move.tended (hb : b.Tended c) (h : Move c b e b') : b'.Tended c := by
  cases h with
  | began | other | passed | elsewhere => exact hb
  | acquired hst | denied hst | unheard hst | released hst | abandoned hst =>
    exact Board.Tended.place hb (by simp [hst, Board.set, Board.delete])
  | @renewing j hst =>
    intro r hr
    rcases List.mem_append.mp hr with hr | hr
    · exact hb.place (by simp [hst]) r hr
    · rw [List.mem_singleton.mp hr]
      exact ⟨Function.update_self .., rfl, rfl⟩
  | @stopping j hst =>
    intro r hr
    replace hr : r ∈ (Kernel.stopRenewal j c.key b.renewals).2 := hr
    rw [stopRenewal_eq_filter fun r hr ↦ (hb r hr).2, List.mem_filter, decide_eq_true_iff] at hr
    obtain ⟨hkept, hrest⟩ := hb r hr.1
    exact ⟨(Function.update_of_ne hr.2 _ _).trans hkept, hrest⟩
  | @extended before after r₀ answer keys hrenewals =>
    intro r hr
    rcases List.mem_append.mp hr with hr | hr
    · exact hb r (by simp [hrenewals, hr])
    rcases List.mem_cons.mp hr with rfl | hr
    · exact hb r₀ (by simp [hrenewals])
    · exact hb r (by simp [hrenewals, hr])
  | crashed host =>
    intro r hr
    obtain ⟨hr, hne⟩ := List.mem_filter.mp hr
    obtain ⟨hkept, hrest⟩ := hb r hr
    exact ⟨(if_neg (of_decide_eq_true hne)).trans hkept, hrest⟩

/-! ## Losing the key -/

/-- The key is not set, though the run holds the lock. -/
def Board.Lost (c : Scene) (b : Board) (i : ℕ) : Prop :=
  (b.standing i).Holds ∧ ¬b.IsSet c.key

/-- The end of a key has come, though the run that set it holds the lock. -/
def Board.RanOut (c : Scene) (b : Board) : Prop :=
  ∃ i, (b.standing i).Holds ∧ b.setter = some i ∧ ∃ e, b.slot? c.key = some e ∧ e.expiry ≤ b.now

/-- A run that holds the lock has set the key. -/
def Board.Guarded (c : Scene) (b : Board) : Prop :=
  ∀ i, (b.standing i).Holds → b.setter = some i ∧ ∃ e, b.slot? c.key = some e

theorem Board.holds_place {j : ℕ} {st : Standing} (h : ((b.place i st).standing j).Holds) :
    j = i ∧ st.Holds ∨ j ≠ i ∧ (b.standing j).Holds := by
  dsimp only [place] at h
  by_cases hji : j = i
  · subst hji
    rw [Function.update_self] at h
    exact .inl ⟨rfl, h⟩
  · rw [Function.update_of_ne hji] at h
    exact .inr ⟨hji, h⟩

theorem Board.holds_crash {host : ℕ} (h : ((b.crash c host).standing i).Holds) :
    (c.attempts i).host ≠ host ∧ (b.standing i).Holds := by
  dsimp only [crash] at h
  split at h
  · exact h.elim
  · next hne => exact ⟨hne, h⟩

theorem Board.Guarded.isSet (hb : b.Guarded c) (hran : ¬b.RanOut c) (hi : (b.standing i).Holds) :
    b.IsSet c.key := by
  obtain ⟨hsetter, entry, hentry⟩ := hb i hi
  refine ⟨entry, hentry, ?_⟩
  by_contra hend
  exact hran ⟨i, hi, hsetter, entry, hentry, Nat.le_of_not_lt hend⟩

theorem Board.slot?_of_extends {r : Renewal} {answer : Result Bool} {keys : KeyStore} {key : String}
    {entry : KeyStore.Entry} (h : b.Extends r answer keys) (hkey : r.key = key)
    (hentry : b.slot? key = some entry) : ∃ entry', keys.keys.get? key = some entry' := by
  have hextend : ∃ entry', (b.keys.extend b.now r.key r.ttl).1.keys.get? key = some entry' := by
    subst hkey
    by_cases hset : b.IsSet r.key
    · obtain ⟨e, he, hopen⟩ := hset
      exact ⟨_, get?_extend he hopen _⟩
    · rw [extend_eq_self hset]
      exact ⟨entry, hentry⟩
  cases h with
  | told | unheard => exact hextend
  | refused => exact ⟨entry, hentry⟩

theorem Move.guarded (hb : b.Guarded c) (htended : b.Tended c) (hran : ¬b.RanOut c)
    (h : Move c b e b') : b'.Guarded c := by
  intro j hj
  cases h with
  | began | other | passed => exact hb j hj
  -- the key is set by another only when it is not set, and then nobody holds the lock
  | @acquired i _ hfree =>
    rcases Board.holds_place hj with ⟨rfl, -⟩ | ⟨-, hj⟩
    · exact ⟨rfl, _, Board.slot?_set (i := j) hfree⟩
    · exact absurd (hb.isSet hran hj) hfree
  | @unheard i _ hfree =>
    rcases Board.holds_place hj with ⟨rfl, hgone⟩ | ⟨-, hj⟩
    · exact hgone.elim
    · exact absurd (hb.isSet hran hj) hfree
  | denied | abandoned =>
    rcases Board.holds_place hj with ⟨rfl, hgone⟩ | ⟨-, hj⟩
    · exact hgone.elim
    · exact hb j hj
  | renewing hst | stopping hst =>
    rcases Board.holds_place hj with ⟨rfl, -⟩ | ⟨-, hj⟩
    · exact hb j (by rw [hst]; trivial)
    · exact hb j hj
  -- who removes the key has set it, so nobody else holds the lock
  | @released i hst =>
    rcases Board.holds_place hj with ⟨rfl, hgone⟩ | ⟨hne, hj⟩
    · exact hgone.elim
    · have hi := (hb i (by rw [hst]; trivial)).1
      rw [(hb j hj).1, Option.some.injEq] at hi
      exact absurd hi hne
  | @extended before after r answer keys hr _ hanswer =>
    obtain ⟨hsetter, entry, hentry⟩ := hb j hj
    have hkey := (htended r (by simp [hr])).2.1
    exact ⟨hsetter, Board.slot?_of_extends hanswer hkey hentry⟩
  | crashed host => exact hb j (Board.holds_crash hj).2
  | elsewhere hkey =>
    obtain ⟨hsetter, entry, hentry⟩ := hb j hj
    exact ⟨hsetter, entry, hkey.trans hentry⟩

theorem Move.setter_or_lost (h : Move c b e b') (hi : (b'.standing i).Holds)
    (hb : (b.standing i).Holds → b.setter = some i) :
    b'.setter = some i ∨ b.Lost c i ∨ b'.Lost c i := by
  cases h with
  | began | other | extended | passed | elsewhere => exact .inl (hb hi)
  | acquired _ hfree | unheard _ hfree =>
    rcases Board.holds_place hi with ⟨rfl, -⟩ | ⟨-, hi⟩
    · exact .inl rfl
    · exact .inr (.inl ⟨hi, hfree⟩)
  | denied | abandoned =>
    rcases Board.holds_place hi with ⟨-, hgone⟩ | ⟨-, hi⟩
    · exact hgone.elim
    · exact .inl (hb hi)
  | renewing hst | stopping hst =>
    rcases Board.holds_place hi with ⟨rfl, -⟩ | ⟨-, hi⟩
    · exact .inl (hb (by rw [hst]; trivial))
    · exact .inl (hb hi)
  -- the key that is removed may be that of the run
  | @released j hst =>
    refine .inr (.inr ⟨hi, ?_⟩)
    rintro ⟨entry, hentry, -⟩
    cases (Board.slot?_delete b c.key).symm.trans hentry
  | crashed host => exact .inl (hb (Board.holds_crash hi).2)

/-! ## Commands that meet the key of another -/

/-- The command of a renewal of a run, or the one by which it removes the key. -/
def IsCommand (c : Scene) (i : ℕ) (e : Event) : Prop :=
  (∃ r answer, e = .extended r answer ∧ r.agent = i) ∨
    ∃ answer, e = .asked i ⟨.deleteKey c.key, answer⟩

theorem Move.holds_of_command (h : Move c b e b') (htended : b.Tended c)
    (hcommand : IsCommand c i e) : (b.standing i).Holds := by
  obtain ⟨r, answer, rfl, rfl⟩ | ⟨answer, rfl⟩ := hcommand
  · cases h with
    | extended hr =>
      rw [(htended r (by simp [hr])).1]
      trivial
  · cases h with
    | other _ hr => exact absurd rfl hr
    | released hst | abandoned hst =>
      rw [hst]
      trivial

variable {now : ℕ} {keys : KeyStore} {events : List Event}

theorem tended_of_run (hquiet : ∀ i, Quiet c.key (c.attempts i).work)
    (hrun : Run (Step c) (Scene.start now keys) events s) : s.board.Tended c := by
  induction hrun with
  | nil => exact fun r hr ↦ by cases hr
  | snoc hrun hstep ih => exact ((Orderly.of_run hrun hquiet).move hstep).tended ih

theorem guarded_or_passes (hquiet : ∀ i, Quiet c.key (c.attempts i).work)
    (hrun : Run (Step c) (Scene.start now keys) events s) :
    s.board.Guarded c ∨
      Run.Passes (Step c) (Scene.start now keys) events s fun m ↦ m.board.RanOut c := by
  induction hrun with
  | nil => exact .inl fun i hi ↦ hi.elim
  | @snoc events e s t hrun hstep ih =>
    rcases ih with hguarded | hpasses
    · by_cases hran : s.board.RanOut c
      · exact .inr ((Run.passes_end hrun hran).snoc hstep)
      · have hmove := (Orderly.of_run hrun hquiet).move hstep
        exact .inl (hmove.guarded hguarded (tended_of_run hquiet hrun) hran)
    · exact .inr (hpasses.snoc hstep)

theorem setter_or_passes (hquiet : ∀ i, Quiet c.key (c.attempts i).work)
    (hrun : Run (Step c) (Scene.start now keys) events s) (hi : (s.board.standing i).Holds) :
    s.board.setter = some i ∨
      Run.Passes (Step c) (Scene.start now keys) events s fun m ↦ m.board.Lost c i := by
  induction hrun with
  | nil => exact hi.elim
  | @snoc events e s t hrun hstep ih =>
    have hmove := (Orderly.of_run hrun hquiet).move hstep
    by_cases hpasses : Run.Passes (Step c) (Scene.start now keys) events s fun m ↦ m.board.Lost c i
    · exact .inr (hpasses.snoc hstep)
    · rcases hmove.setter_or_lost hi fun hold ↦ (ih hold).resolve_right hpasses with h | h | h
      · exact .inl h
      · exact absurd (Run.passes_end hrun h) hpasses
      · exact .inr (Run.passes_end (hrun.snoc hstep) h)

/-- Every run is on an instance of its own, and has the lock for two milliseconds. -/
def briefScene : Scene where
  job := "sync"
  attempts i := { host := i, owner := toString i, ttl := 2, work := .done (.ok ()) }

/-- A run sends a command while it holds the lock, and the command meets the key that the run has
set, unless the run has lost the key while it held the lock, and a key has run out before. -/
theorem command_meets_own_key_or_lapse (hquiet : ∀ i, Quiet c.key (c.attempts i).work)
    (hrun : Run (Step c) (Scene.start now keys) events s) (hstep : Step c s e t)
    (hcommand : IsCommand c i e) :
    (s.board.standing i).Holds ∧ (s.board.setter = some i ∨
      Run.Passes (Step c) (Scene.start now keys) events s (fun m ↦ m.board.Lost c i) ∧
        Run.Passes (Step c) (Scene.start now keys) events s fun m ↦ m.board.RanOut c) := by
  have hmove := (Orderly.of_run hrun hquiet).move hstep
  have hi := hmove.holds_of_command (tended_of_run hquiet hrun) hcommand
  refine ⟨hi, ?_⟩
  by_cases hsetter : s.board.setter = some i
  · exact .inl hsetter
  · refine .inr ⟨(setter_or_passes hquiet hrun hi).resolve_left hsetter, ?_⟩
    exact (guarded_or_passes hquiet hrun).resolve_left fun h ↦ hsetter (h i hi).1

/-- The first extension of a key meets the key of its own run, or a key has run out. -/
theorem first_extension_meets_own_key_or_lapse :
    ∃ events s t, Run (Step briefScene) (Scene.start 0 .empty) events s ∧
      Step briefScene s (.extended ⟨0, briefScene.key, 2, 0, 0, none, false⟩ (.ok true)) t ∧
      (s.board.standing 0).Holds ∧ (s.board.setter = some 0 ∨
        Run.Passes (Step briefScene) (Scene.start 0 .empty) events s
          (fun m ↦ m.board.Lost briefScene 0) ∧
        Run.Passes (Step briefScene) (Scene.start 0 .empty) events s
          fun m ↦ m.board.RanOut briefScene) := by
  have h₁ := (@Run.nil _ _ (Step briefScene) (Scene.start 0 .empty)).snoc (.began (i := 0) rfl)
  have h₂ := h₁.snoc (.asked (i := 0) rfl (.ask _ _) (.told (.set rfl)))
  have h₃ := h₂.snoc (.asked (i := 0) rfl (.ask _ _) (.told (.startRenewal 2)))
  have h₄ := h₃.snoc (.passed 1)
  refine ⟨_, _, _, h₄, @Step.extended _ _ [] [] _ _ _ rfl (by decide) .told, ?_⟩
  exact command_meets_own_key_or_lapse (fun _ ↦ trivial) h₄
    (@Step.extended _ _ [] [] _ _ _ rfl (by decide) .told) (.inl ⟨_, _, rfl, rfl⟩)

/-- A run whose key has run out extends and removes the key of the run that came after it. -/
theorem late_commands_meet_a_later_key :
    ∃ events events' s t s' t' r, Run (Step briefScene) (Scene.start 0 .empty) events s ∧
      Step briefScene s (.extended r (.ok true)) t ∧ r.agent = 0 ∧
      s.board.setter = some 1 ∧ s.board.IsSet briefScene.key ∧
      Run (Step briefScene) t events' s' ∧
      Step briefScene s' (.asked 0 ⟨.deleteKey briefScene.key, .ok ()⟩) t' ∧
      s'.board.setter = some 1 ∧ s'.board.IsSet briefScene.key ∧
      ¬t'.board.IsSet briefScene.key := by
  have h₁ := (@Run.nil _ _ (Step briefScene) (Scene.start 0 .empty)).snoc (.began (i := 0) rfl)
  have h₂ := h₁.snoc (.asked (i := 0) rfl (.ask _ _) (.told (.set rfl)))
  have h₃ := h₂.snoc (.asked (i := 0) rfl (.ask _ _) (.told (.startRenewal 2)))
  have h₄ := h₃.snoc (.asked (i := 0) rfl (.ask _ _)
    (.other (r := .count (.jobRuns "sync")) (by decide) ()))
  have h₅ := h₄.snoc (.passed 2)
  have h₆ := h₅.snoc (.began (i := 1) rfl)
  have h₇ := h₆.snoc (.asked (i := 1) rfl (.ask _ _) (.told (.set rfl)))
  refine ⟨_, _, _, _, _, _, ⟨0, briefScene.key, 2, 0, 0, none, false⟩, h₇,
    @Step.extended _ _ [] [] _ (.ok true) _ rfl (by decide) .told, rfl, rfl, ⟨_, rfl, by decide⟩,
    Run.nil.snoc (.asked (i := 0) rfl (.ask _ _) (.told .stopRenewal)),
    .asked (i := 0) rfl (.ask _ _) (.told .delete), rfl, ⟨_, rfl, by decide⟩, ?_⟩
  rintro ⟨entry, hentry, -⟩
  cases hentry

end NodeInventory.Lock
