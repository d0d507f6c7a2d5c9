import NodeInventory.Proofs.Lock.System

/-!
# What runs do about their lock

A run sets the key, begins to extend it, stops extending it, and removes it, in this order, and it
goes on only with a key that it has set. What it does in between, and what it does afterwards, is
not about the key. This is a contract which a run meets from its beginning (`meets_run`), provided
that the work it does has nothing to do with the key, and which it therefore meets whenever it has
begun (`Orderly`).

So what happens to the lock can be told without the programs: `Move` lists all that can happen to a
board, and every step is such a move (`Orderly.move`). What is to be shown of the lock is shown of
moves.
-/

namespace NodeInventory.Lock

open Program

variable {c : Scene} {key owner job : String} {ttl i : ℕ} {s t : State} {e : Event}

/-! ## The contract -/

/-- What a run may ask when it has a standing. -/
def protocol (key owner : String) (ttl : ℕ) : Contract Standing where
  allows
    | .outside, r => r = .setKey key owner ttl
    | .granted, r => r = .startRenewal key ttl
    | .kept, r => r.lockKey? ≠ some key ∨ r = .stopRenewal key
    | .leaving, r => r = .deleteKey key
    | .gone, r => r.IsNote
  answers st r a next := next = st.after key r a

/-- Work that has nothing to do with the key of a lock. -/
abbrev Quiet (key : String) (work : Program (Result Unit)) : Prop :=
  work.Asks fun r ↦ r.lockKey? ≠ some key

theorem quiet_job (d : Duties) (j : Job) : Quiet key (j.program d) := by
  refine (Job.within_program d j).imp fun r hr hkey ↦ ?_
  cases r with
  | setKey | extendKey | deleteKey | startRenewal | stopRenewal => simp [Request.kind] at hr
  | _ => cases hkey

theorem ignores_kept {r : Request} (hr : r.lockKey? ≠ some key) :
    (protocol key owner ttl).Ignores .kept r := by
  refine ⟨.inl hr, fun a next hnext ↦ ?_⟩
  rw [hnext]
  exact Standing.after_of_ne hr .kept a

theorem ignores_of_isNote {st : Standing} {r : Request} (hst : st = .kept ∨ st = .gone)
    (hr : r.IsNote) : (protocol key owner ttl).Ignores st r := by
  have hkey : r.lockKey? ≠ some key := by
    rw [hr.lockKey?_eq_none]
    exact Option.some_ne_none key |>.symm
  obtain rfl | rfl := hst
  · exact ignores_kept hkey
  · refine ⟨hr, fun a next hnext ↦ ?_⟩
    rw [hnext]
    exact Standing.after_of_ne hkey .gone a

theorem meets_reportFailure {α : Type} {st : Standing} {post : Standing → α → Prop}
    {source : Report.Source} {subject : String} (result : Result Unit) {f : Unit → Program α}
    (hst : st = .kept ∨ st = .gone) (hf : ∀ u, (f u).Meets (protocol key owner ttl) post st) :
    ((Action.reportFailure source subject result : Program Unit) >>= f).Meets
      (protocol key owner ttl) post st := by
  refine .bind (meets_afterAction_of_ignores ?_ hf)
  have hwithin := Action.within_reportFailure source subject result
  exact hwithin.imp fun r hr ↦ ignores_of_isNote hst (List.mem_cons_of_mem _ hr)

theorem meets_count {α : Type} {st : Standing} {post : Standing → α → Prop} {counter : Counter}
    {f : Unit → Program α} (hst : st = .kept ∨ st = .gone)
    (hf : (f ()).Meets (protocol key owner ttl) post st) :
    ((Action.count counter : Program Unit) >>= f).Meets (protocol key owner ttl) post st := by
  have hignores : (protocol key owner ttl).Ignores st (.count counter) :=
    ignores_of_isNote hst (by simp [Request.IsNote, Request.kind])
  refine ⟨hignores.1, fun a next hnext ↦ ?_⟩
  rw [hignores.2 a next hnext]
  exact hf

theorem meets_release {α : Type} {post : Standing → α → Prop} {f : Result Unit → Program α}
    (hf : ∀ result, (f result).Meets (protocol (Lock.key job) owner ttl) post .gone) :
    ((release job : Program (Result Unit)) >>= f).Meets (protocol (Lock.key job) owner ttl) post
      .kept := by
  refine .bind (meets_afterAction (Action.meets_ask_bind (.inr rfl) fun _ st hst ↦ ?_))
  obtain rfl : st = .leaving := by simpa [protocol] using hst
  refine Action.meets_ask_bind rfl fun answer st hst ↦ ?_
  obtain rfl : st = .gone := by simpa [protocol] using hst
  exact hf _

/-- A run keeps the order, and in the end is done with the lock. -/
theorem meets_run {work : Program (Result Unit)} (hwork : Quiet (Lock.key job) work) :
    (run owner job ttl work).Meets (protocol (Lock.key job) owner ttl) (fun st _ ↦ st = .gone)
      .outside := by
  refine .bind (meets_afterAction (.bind (Action.meets_ask_bind rfl
    fun (answer : Result Bool) st hst ↦ ?_)))
  obtain f | set := answer
  · obtain rfl : st = .gone := by simpa [protocol] using hst
    exact meets_reportFailure (.error _) (.inr rfl) fun _ ↦ rfl
  cases set with
  | false =>
    obtain rfl : st = .gone := by simpa [protocol] using hst
    exact meets_count (.inr rfl) rfl
  | true =>
    obtain rfl : st = .granted := by simpa [protocol] using hst
    refine Action.meets_ask_bind rfl fun _ st hst ↦ ?_
    obtain rfl : st = .kept := by simpa [protocol] using hst
    refine meets_count (.inl rfl) (.bind ?_)
    have hignores : work.Asks ((protocol (Lock.key job) owner ttl).Ignores .kept) :=
      hwork.imp fun r hr ↦ ignores_kept hr
    refine hignores.meets.imp fun st result hst ↦ ?_
    rw [hst]
    refine meets_reportFailure _ (.inl rfl) fun _ ↦ meets_release fun released ↦ ?_
    exact meets_reportFailure _ (.inr rfl) fun _ ↦ rfl

/-! ## All that can happen -/

/-- All that can happen to a board. -/
inductive Move (c : Scene) (b : Board) : Event → Board → Prop
  | began (i : ℕ) : Move c b (.began i) b
  | other (i : ℕ) {r : Request} (hr : r.lockKey? ≠ some c.key) (a : r.Answer) :
    Move c b (.asked i ⟨r, a⟩) b
  /-- The key is set by a run. -/
  | acquired {i : ℕ} (hst : b.standing i = .outside) (hfree : ¬b.IsSet c.key) :
    Move c b (.asked i ⟨.setKey c.key (c.attempts i).owner (c.attempts i).ttl, .ok true⟩)
      ((b.set i c.key (c.attempts i).owner (c.attempts i).ttl).place i .granted)
  /-- A run does not get the lock. -/
  | denied {i : ℕ} {answer : Result Bool} (hst : b.standing i = .outside)
      (hanswer : answer ≠ .ok true) :
    Move c b (.asked i ⟨.setKey c.key (c.attempts i).owner (c.attempts i).ttl, answer⟩)
      (b.place i .gone)
  /-- The key is set by a run that does not hear of it. -/
  | unheard {i : ℕ} (hst : b.standing i = .outside) (hfree : ¬b.IsSet c.key) (f : Failure) :
    Move c b (.asked i ⟨.setKey c.key (c.attempts i).owner (c.attempts i).ttl, .error f⟩)
      ((b.set i c.key (c.attempts i).owner (c.attempts i).ttl).place i .gone)
  | renewing {i : ℕ} (hst : b.standing i = .granted) :
    Move c b (.asked i ⟨.startRenewal c.key (c.attempts i).ttl, ()⟩)
      ((b.startRenewal i c.key (c.attempts i).ttl).place i .kept)
  | stopping {i : ℕ} (hst : b.standing i = .kept) :
    Move c b (.asked i ⟨.stopRenewal c.key, ()⟩) ((b.stopRenewal i c.key).place i .leaving)
  /-- A run removes the key. -/
  | released {i : ℕ} (hst : b.standing i = .leaving) (answer : Result Unit) :
    Move c b (.asked i ⟨.deleteKey c.key, answer⟩) ((b.delete c.key).place i .gone)
  /-- A run fails to remove the key. -/
  | abandoned {i : ℕ} (hst : b.standing i = .leaving) (f : Failure) :
    Move c b (.asked i ⟨.deleteKey c.key, .error f⟩) (b.place i .gone)
  | extended {before after : List Simulation.Renewal} {r : Simulation.Renewal}
      {answer : Result Bool} {keys : KeyStore} (hr : b.renewals = before ++ r :: after)
      (hdue : r.due ≤ b.now) (hanswer : b.Extends r answer keys) :
    Move c b (.extended r answer)
      { b with keys, renewals := before ++ { r with fired := r.fired + 1 } :: after }
  | crashed (host : ℕ) : Move c b (.crashed host) (b.crash c host)
  | passed (millis : ℕ) : Move c b (.passed millis) { b with now := b.now + millis }
  | elsewhere {keys : KeyStore} (hkey : keys.keys.get? c.key = b.slot? c.key) :
    Move c b .elsewhere { b with keys }

theorem Move.eq_crash {b b' : Board} {host : ℕ} (h : Move c b (.crashed host) b') :
    b' = b.crash c host := by
  cases h
  rfl

theorem Move.not_isSet_of_acquired {b b' : Board}
    (h : Move c b (.asked i ⟨.setKey c.key owner ttl, .ok true⟩) b') : ¬b.IsSet c.key := by
  cases h with
  | other _ hr => exact absurd rfl hr
  | acquired _ hfree => exact hfree
  | denied _ hanswer => exact absurd rfl hanswer

/-- A run stands to the lock as what it has still to do says. -/
def Agrees (c : Scene) (i : ℕ) (st : Standing) : Stage → Prop
  | .waiting => st = .outside
  | .running p => p.Meets (protocol c.key (c.attempts i).owner (c.attempts i).ttl)
    (fun st _ ↦ st = .gone) st
  | .crashed => st = .gone

/-- All runs stand to the lock as what they have still to do says. -/
def Orderly (c : Scene) (s : State) : Prop := ∀ i, Agrees c i (s.board.standing i) (s.stages i)

namespace Orderly

theorem start (c : Scene) (now : ℕ) (keys : KeyStore) : Orderly c (Scene.start now keys) :=
  fun _ ↦ rfl

theorem meets (ho : Orderly c s) {p : Program RunOutcome} (hstage : s.stages i = .running p) :
    p.Meets (protocol c.key (c.attempts i).owner (c.attempts i).ttl) (fun st _ ↦ st = .gone)
      (s.board.standing i) := by
  have hi := ho i
  rwa [hstage] at hi

theorem step (ho : Orderly c s) (hquiet : ∀ i, Quiet c.key (c.attempts i).work)
    (hstep : Step c s e t) : Orderly c t := by
  intro j
  have hj := ho j
  cases hstep with
  | @began i hstage =>
    dsimp only
    by_cases hji : j = i
    · subst hji
      rw [hstage] at hj
      rw [Function.update_self, show s.board.standing j = .outside from hj]
      exact meets_run (hquiet j)
    · rwa [Function.update_of_ne hji]
  | @asked i p q r a b hstage hstep hanswer =>
    dsimp only [Board.place]
    rw [hanswer.standing_eq]
    by_cases hji : j = i
    · subst hji
      rw [Function.update_self, Function.update_self]
      exact ((ho.meets hstage).step hstep).2 _ rfl
    · rwa [Function.update_of_ne hji, Function.update_of_ne hji]
  | crashed host =>
    dsimp only [Board.crash]
    split
    · exact rfl
    · exact hj
  | extended | passed | elsewhere => exact hj

/-- What happens is one of the moves. -/
theorem move (ho : Orderly c s) (hstep : Step c s e t) : Move c s.board e t.board := by
  cases hstep with
  | @began i => exact .began i
  | @asked i p q r a b hstage hstep hanswer =>
    have hallows := ((ho.meets hstage).step hstep).1
    rw [hanswer.standing_eq]
    by_cases hr : r.lockKey? = some c.key
    · cases hst : s.board.standing i with
      | outside =>
        rw [hst] at hallows
        obtain rfl := hallows
        cases hanswer with
        | told h =>
          cases h with
          | set hset =>
            rw [Standing.after_setKey_true]
            exact .acquired hst (Board.set_eq_true_iff.mp hset)
          | taken =>
            rw [Standing.after_setKey_false]
            exact .denied hst (by simp)
        | refused _ ha =>
          cases ha
          rw [Standing.after_setKey_error]
          exact .denied hst (by simp)
        | unheard h ha =>
          cases ha
          rw [Standing.after_setKey_error]
          cases h with
          | set hset => exact .unheard hst (Board.set_eq_true_iff.mp hset) _
          | taken => exact .denied hst (by simp)
        | other hne => exact absurd hr hne
      | granted =>
        rw [hst] at hallows
        obtain rfl := hallows
        rw [Standing.after_startRenewal]
        cases hanswer with
        | told h =>
          cases h
          exact .renewing hst
        | refused _ ha | unheard _ ha => cases ha
        | other hne => exact absurd hr hne
      | kept =>
        rw [hst] at hallows
        obtain rfl := hallows.resolve_left (not_not_intro hr)
        rw [Standing.after_stopRenewal]
        cases hanswer with
        | told h =>
          cases h
          exact .stopping hst
        | refused _ ha | unheard _ ha => cases ha
        | other hne => exact absurd hr hne
      | leaving =>
        rw [hst] at hallows
        obtain rfl := hallows
        rw [Standing.after_deleteKey]
        cases hanswer with
        | told h =>
          cases h
          exact .released hst _
        | refused _ ha =>
          cases ha
          exact .abandoned hst _
        | unheard h ha =>
          cases ha
          cases h
          exact .released hst _
        | other hne => exact absurd hr hne
      | gone =>
        rw [hst] at hallows
        exact absurd (hr.symm.trans (Request.IsNote.lockKey?_eq_none hallows)) (by simp)
    · rw [hanswer.eq_of_ne hr, Standing.after_of_ne hr, Board.place_standing]
      exact .other i hr a
  | extended hr hdue hanswer => exact .extended hr hdue hanswer
  | crashed host => exact .crashed host
  | passed millis => exact .passed millis
  | elsewhere hkey => exact .elsewhere hkey

theorem of_run {now : ℕ} {keys : KeyStore} {events : List Event}
    (hrun : Run (Step c) (Scene.start now keys) events s)
    (hquiet : ∀ i, Quiet c.key (c.attempts i).work) : Orderly c s :=
  hrun.invariant (start c now keys) fun _ _ _ ho hstep ↦ ho.step hquiet hstep

end Orderly

end NodeInventory.Lock
