import NodeInventory.Proofs.Lock.Lapse
import NodeInventory.Simulation.Locking

/-!
# One run at a time

If the store answers all commands about the lock, and nothing is put off, then at most one run holds
the lock at any time, and its key is set as long as it does. Nobody else gets the lock of an
instance that has crashed before the key ends by itself.

The state of the lock is one of two (`Tenancy`): it is vacant, and nothing extends the key; or one
run holds it, whose key is set, and the next extension of the key is due before the end of the key.
The last is what makes a time of two milliseconds the least that is enough: an extension is due at
most half of the time of the key, rounded up, after the one before it (`extension_succ_lt`).
-/

namespace NodeInventory.Lock

open Simulation (Kernel Renewal World)

variable {c : Scene} {b b' : Board} {s t : State} {e : Event} {i : ℕ}

/-! ## When extensions are due -/

theorem extension_zero (since ttl : ℕ) : Renewal.extension since ttl 0 = since := by
  simp [Renewal.extension]

theorem extension_le_succ (since ttl k : ℕ) :
    Renewal.extension since ttl k ≤ Renewal.extension since ttl (k + 1) := by
  rw [Renewal.extension, Renewal.extension, Nat.add_one_mul]
  omega

/-- An extension is due before the end of a key that was extended when the last one was due. -/
theorem extension_succ_lt {ttl : ℕ} (httl : 2 ≤ ttl) (since k : ℕ) :
    Renewal.extension since ttl (k + 1) < Renewal.extension since ttl k + ttl := by
  rw [Renewal.extension, Renewal.extension, Nat.max_eq_left httl, Nat.add_one_mul]
  omega

/-! ## Tenancy -/

/-- What the run that holds the lock does about the end of its key. -/
inductive Upkeep (c : Scene) (b : Board) (i expiry : ℕ) : Prop
  /-- It has just set the key. -/
  | granted (hst : b.standing i = .granted) (hrenewals : b.renewals = [])
      (hnew : expiry = b.now + (c.attempts i).ttl)
  /-- It extends the key before its end. -/
  | kept {r : Renewal} (hst : b.standing i = .kept) (hrenewals : b.renewals = [r])
      (httl : r.ttl = (c.attempts i).ttl) (hdue : b.now ≤ r.due) (hbefore : r.due < expiry)
  /-- It is about to remove the key. -/
  | leaving (hst : b.standing i = .leaving) (hrenewals : b.renewals = [])

/-- Nobody holds the lock, or one run whose key is set does. -/
inductive Tenancy (c : Scene) (b : Board) : Prop
  | vacant (hnone : ∀ j, ¬(b.standing j).Holds) (hrenewals : b.renewals = [])
  | taken {i : ℕ} {entry : KeyStore.Entry} (honly : ∀ j, (b.standing j).Holds → j = i)
      (hentry : b.slot? c.key = some entry) (hvalue : entry.value = (c.attempts i).owner)
      (hopen : b.now < entry.expiry) (hupkeep : Upkeep c b i entry.expiry)

theorem Upkeep.holds {expiry : ℕ} (h : Upkeep c b i expiry) : (b.standing i).Holds := by
  cases h with
  | granted hst | kept hst | leaving hst =>
    rw [hst]
    trivial

theorem Upkeep.place_of_ne {j expiry : ℕ} {st : Standing} (h : Upkeep c b i expiry) (hij : i ≠ j) :
    Upkeep c (b.place j st) i expiry := by
  have hstanding : (b.place j st).standing i = b.standing i := Function.update_of_ne hij _ _
  cases h with
  | granted hst hrenewals hnew => exact .granted (hstanding.trans hst) hrenewals hnew
  | kept hst hrenewals httl hdue hbefore =>
    exact .kept (hstanding.trans hst) hrenewals httl hdue hbefore
  | leaving hst hrenewals => exact .leaving (hstanding.trans hst) hrenewals

theorem Board.only_place (honly : ∀ k, (b.standing k).Holds → k = i) (st : Standing) :
    ∀ k, ((b.place i st).standing k).Holds → k = i := by
  intro k hk
  rcases Board.holds_place hk with ⟨hk, -⟩ | ⟨-, hk⟩
  · exact hk
  · exact honly k hk

theorem Tenancy.place_gone (hb : Tenancy c b) {j : ℕ} (hj : ¬(b.standing j).Holds) :
    Tenancy c (b.place j .gone) := by
  cases hb with
  | vacant hnone hrenewals =>
    refine .vacant (fun k hk ↦ ?_) hrenewals
    rcases Board.holds_place hk with ⟨-, hgone⟩ | ⟨-, hk⟩
    · exact hgone
    · exact hnone k hk
  | taken honly hentry hvalue hopen hupkeep =>
    refine .taken (fun k hk ↦ ?_) hentry hvalue hopen (hupkeep.place_of_ne ?_)
    · rcases Board.holds_place hk with ⟨-, hgone⟩ | ⟨-, hk⟩
      · exact hgone.elim
      · exact honly k hk
    · rintro rfl
      exact hj hupkeep.holds

theorem Tenancy.set (hb : Tenancy c b) (hfree : ¬b.IsSet c.key) (httl : 2 ≤ (c.attempts i).ttl) :
    Tenancy c ((b.set i c.key (c.attempts i).owner (c.attempts i).ttl).place i .granted) := by
  cases hb with
  | vacant hnone hrenewals =>
    refine .taken (i := i) (fun k hk ↦ ?_) (Board.slot?_set (i := i) hfree) rfl ?_
      (.granted (Function.update_self ..) hrenewals rfl)
    · rcases Board.holds_place hk with ⟨hk, -⟩ | ⟨-, hk⟩
      · exact hk
      · exact absurd hk (hnone k)
    · exact Nat.lt_add_of_pos_right (by omega)
  | taken _ hentry _ hopen => exact absurd ⟨_, hentry, hopen⟩ hfree

theorem Tenancy.startRenewal (hb : Tenancy c b) (hst : b.standing i = .granted)
    (httl : 2 ≤ (c.attempts i).ttl) :
    Tenancy c ((b.startRenewal i c.key (c.attempts i).ttl).place i .kept) := by
  cases hb with
  | vacant hnone => exact absurd (hst ▸ trivial) (hnone i)
  | @taken j entry honly hentry hvalue hopen hupkeep =>
    obtain rfl := honly i (hst ▸ trivial)
    cases hupkeep with
    | kept hst' | leaving hst' =>
      rw [hst] at hst'
      cases hst'
    | granted _ hrenewals hnew =>
      refine .taken (Board.only_place honly _) hentry hvalue hopen
        (.kept (Function.update_self ..) (congrArg (· ++ [_]) hrenewals) rfl ?_ ?_)
      · exact Nat.le_trans (Nat.le_of_eq (extension_zero _ _).symm) (extension_le_succ _ _ _)
      · have hlt := extension_succ_lt httl b.now 0
        rw [extension_zero, ← hnew] at hlt
        exact hlt

theorem Tenancy.stopRenewal (hb : Tenancy c b) (htended : b.Tended c)
    (hst : b.standing i = .kept) : Tenancy c ((b.stopRenewal i c.key).place i .leaving) := by
  cases hb with
  | vacant hnone => exact absurd (hst ▸ trivial) (hnone i)
  | @taken j entry honly hentry hvalue hopen hupkeep =>
    obtain rfl := honly i (hst ▸ trivial)
    refine .taken (Board.only_place honly _) hentry hvalue hopen
      (.leaving (Function.update_self ..) ?_)
    -- all renewals are those of the run
    refine (stopRenewal_eq_filter fun r hr ↦ (htended r hr).2).trans ?_
    refine List.filter_eq_nil_iff.mpr fun r hr ↦ ?_
    simp [honly r.agent ((htended r hr).1 ▸ trivial)]

theorem Tenancy.delete (hb : Tenancy c b) (hst : b.standing i = .leaving) :
    Tenancy c ((b.delete c.key).place i .gone) := by
  cases hb with
  | vacant hnone => exact absurd (hst ▸ trivial) (hnone i)
  | @taken j entry honly hentry hvalue hopen hupkeep =>
    obtain rfl := honly i (hst ▸ trivial)
    cases hupkeep with
    | granted hst' | kept hst' =>
      rw [hst] at hst'
      cases hst'
    | leaving _ hrenewals =>
      refine .vacant (fun k hk ↦ ?_) hrenewals
      rcases Board.holds_place hk with ⟨-, hgone⟩ | ⟨hne, hk⟩
      · exact hgone
      · exact hne (honly k hk)

/-- Time that passes until the next extension is due does not bring the end of the key. -/
theorem Tenancy.pass (hb : Tenancy c b) {millis : ℕ}
    (hwait : ∀ r ∈ b.renewals, b.now + millis ≤ r.due)
    (hprompt : ∀ i, b.standing i ≠ .granted ∧ b.standing i ≠ .leaving) :
    Tenancy c { b with now := b.now + millis } := by
  cases hb with
  | vacant hnone hrenewals => exact .vacant hnone hrenewals
  | @taken i entry honly hentry hvalue hopen hupkeep =>
    cases hupkeep with
    | granted hst => exact absurd hst (hprompt i).1
    | leaving hst => exact absurd hst (hprompt i).2
    | @kept r hst hrenewals httl hdue hbefore =>
      have hwait : b.now + millis ≤ r.due := hwait r (by simp [hrenewals])
      exact .taken honly hentry hvalue (Nat.lt_of_le_of_lt hwait hbefore)
        (.kept hst hrenewals httl hwait hbefore)

theorem Tenancy.elsewhere (hb : Tenancy c b) {keys : KeyStore}
    (hkey : keys.keys.get? c.key = b.slot? c.key) : Tenancy c { b with keys } := by
  cases hb with
  | vacant hnone hrenewals => exact .vacant hnone hrenewals
  | taken honly hentry hvalue hopen hupkeep =>
    refine .taken honly (hkey.trans hentry) hvalue hopen ?_
    cases hupkeep with
    | granted hst hr hnew => exact .granted hst hr hnew
    | kept hst hr httl hdue hbefore => exact .kept hst hr httl hdue hbefore
    | leaving hst hr => exact .leaving hst hr

theorem Tenancy.crash (hb : Tenancy c b) (htended : b.Tended c) (host : ℕ) :
    Tenancy c (b.crash c host) := by
  cases hb with
  | vacant hnone hrenewals =>
    exact .vacant (fun k hk ↦ hnone k (Board.holds_crash hk).2) (by simp [Board.crash, hrenewals])
  | @taken i entry honly hentry hvalue hopen hupkeep =>
    by_cases hhost : (c.attempts i).host = host
    · refine .vacant (fun k hk ↦ ?_) (List.filter_eq_nil_iff.mpr fun r hr ↦ ?_)
      · obtain ⟨hne, hk⟩ := Board.holds_crash hk
        exact hne (honly k hk ▸ hhost)
      -- all renewals are those of the run that is gone
      · have hagent : r.agent = i := honly r.agent (by rw [(htended r hr).1]; trivial)
        simp [hagent, hhost]
    · have hstanding : (b.crash c host).standing i = b.standing i := if_neg hhost
      have hrenewals : (b.crash c host).renewals = b.renewals := by
        refine List.filter_eq_self.mpr fun r hr ↦ ?_
        have hagent : r.agent = i := honly r.agent (by rw [(htended r hr).1]; trivial)
        simp [hagent, hhost]
      refine .taken (fun k hk ↦ honly k (Board.holds_crash hk).2) hentry hvalue hopen ?_
      cases hupkeep with
      | granted hst hr hnew => exact .granted (hstanding.trans hst) (hrenewals.trans hr) hnew
      | kept hst hr httl hdue hbefore =>
        exact .kept (hstanding.trans hst) (hrenewals.trans hr) httl hdue hbefore
      | leaving hst hr => exact .leaving (hstanding.trans hst) (hrenewals.trans hr)

/-- An extension that is made in time puts off the end of the key for long enough. -/
theorem Tenancy.extend (hb : Tenancy c b) (htended : b.Tended c) {before after : List Renewal}
    {r : Renewal} (hr : b.renewals = before ++ r :: after) (hdue : r.due ≤ b.now)
    (httl : ∀ i, 2 ≤ (c.attempts i).ttl) :
    Tenancy c { b with
      keys := (b.keys.extend b.now r.key r.ttl).1
      renewals := before ++ { r with fired := r.fired + 1 } :: after } := by
  obtain ⟨hkept, hkey, hbusy⟩ := htended r (by simp [hr])
  have hdue_eq : ∀ k, Renewal.due { r with fired := k } = Renewal.extension r.since r.ttl (k + 1) :=
    fun k ↦ by simp [Renewal.due, hbusy]
  cases hb with
  | vacant hnone => exact absurd (hkept ▸ trivial) (hnone r.agent)
  | @taken i entry honly hentry hvalue hopen hupkeep =>
    cases hupkeep with
    | granted _ hnil | leaving _ hnil => simp [hnil] at hr
    | @kept r₀ hst hone hr₀ hnow _ =>
      -- there is one renewal, which fires at the very time at which it is due
      obtain ⟨rfl, rfl, rfl⟩ : before = [] ∧ r₀ = r ∧ after = [] := by
        rw [hone, List.singleton_eq_append_iff] at hr
        simpa [eq_comm] using hr
      have hnow_eq : b.now = Renewal.extension r₀.since r₀.ttl (r₀.fired + 1) :=
        (Nat.le_antisymm hnow hdue).trans (hdue_eq r₀.fired)
      have hget := Board.get?_extend (hkey ▸ hentry : b.slot? r₀.key = some entry) hopen r₀.ttl
      refine @Tenancy.taken c _ i ⟨entry.value, b.now + r₀.ttl⟩ honly (hkey ▸ hget) hvalue ?_
        (.kept hst rfl hr₀ ?_ ?_)
      · have := httl i
        exact Nat.lt_add_of_pos_right (by omega)
      · rw [hdue_eq]
        exact Nat.le_trans (Nat.le_of_eq hnow_eq) (extension_le_succ _ _ _)
      · rw [hdue_eq, hnow_eq]
        exact extension_succ_lt (hr₀ ▸ httl i) _ _

/-! ## Steps in time -/

/-- What can happen to a board in time. -/
def Board.Punctual (c : Scene) (b : Board) : Event → Prop
  | .asked _ e => e.request.lockKey? = some c.key →
    ∀ f, World.refuse f e.request ≠ some e.answer
  | .extended _ answer => ∀ f, answer ≠ .error f
  | .passed millis => (∀ r ∈ b.renewals, b.now + millis ≤ r.due) ∧
    ∀ i, b.standing i ≠ .granted ∧ b.standing i ≠ .leaving
  | _ => True

theorem Orderly.punctual (ho : Orderly c s) (h : Punctual c s e) : s.board.Punctual c e := by
  cases e with
  | passed millis =>
    refine ⟨h.1, fun i ↦ ?_⟩
    have hi := ho i
    cases hstage : s.stages i with
    | waiting =>
      rw [hstage] at hi
      have hout : s.board.standing i = .outside := hi
      simp [hout]
    | crashed =>
      rw [hstage] at hi
      have hgone : s.board.standing i = .gone := hi
      simp [hgone]
    | running p =>
      have hmeets := ho.meets hstage
      obtain ⟨a, ha⟩ | ⟨r, hr⟩ := p.ended_or_asks
      · have hgone : s.board.standing i = .gone := hmeets.of_ended ha
        simp [hgone]
      · obtain ⟨a⟩ := r.nonempty_answer
        obtain ⟨q, hq⟩ := hr a
        have hallows := (hmeets.step hq).1
        have hprompt := h.2 i p hstage r a q hq
        refine ⟨fun hst ↦ hprompt (.inl ?_), fun hst ↦ hprompt (.inl ?_)⟩ <;>
        · rw [hst] at hallows
          rw [show r = _ from hallows]
          rfl
  | _ => exact h

theorem Move.tenancy (hb : Tenancy c b) (htended : b.Tended c) (h : Move c b e b')
    (hpunctual : b.Punctual c e) (httl : ∀ i, 2 ≤ (c.attempts i).ttl) : Tenancy c b' := by
  cases h with
  | began | other => exact hb
  | acquired hst hfree => exact hb.set hfree (httl _)
  | denied hst => exact hb.place_gone (by simp [hst, Standing.Holds])
  | renewing hst => exact hb.startRenewal hst (httl _)
  | stopping hst => exact hb.stopRenewal htended hst
  | released hst => exact hb.delete hst
  | extended hr hdue hanswer =>
    cases hanswer with
    | told => exact hb.extend htended hr hdue httl
    | refused f | unheard f => exact absurd rfl (hpunctual f)
  | crashed host => exact hb.crash htended host
  | passed millis => exact hb.pass hpunctual.1 hpunctual.2
  | elsewhere hkey => exact hb.elsewhere hkey
  -- no command fails, so none has an effect that nobody hears of
  | unheard hst hfree f => exact absurd rfl (hpunctual rfl f)
  | abandoned hst f => exact absurd rfl (hpunctual rfl f)

/-! ## Runs in time -/

variable {now : ℕ} {keys : KeyStore} {events : List Event}

theorem PunctualStep.run (hrun : Run (PunctualStep c) s events t) : Run (Step c) s events t :=
  hrun.mono fun _ _ _ h ↦ h.1

theorem tenancy_of_run (hquiet : ∀ i, Quiet c.key (c.attempts i).work)
    (httl : ∀ i, 2 ≤ (c.attempts i).ttl)
    (hrun : Run (PunctualStep c) (Scene.start now keys) events s) : Tenancy c s.board := by
  induction hrun with
  | nil => exact .vacant (fun i hi ↦ hi.elim) rfl
  | snoc hrun hstep ih =>
    have horderly := Orderly.of_run (PunctualStep.run hrun) hquiet
    exact (horderly.move hstep.1).tenancy ih (tended_of_run hquiet (PunctualStep.run hrun))
      (horderly.punctual hstep.2) httl

/-- Nobody holds the lock, and the key has the entry until its end. -/
def Board.Orphaned (c : Scene) (entry : KeyStore.Entry) (b : Board) : Prop :=
  b.now < entry.expiry →
    (∀ i, ¬(b.standing i).Holds) ∧ b.renewals = [] ∧ b.slot? c.key = some entry

theorem Tenancy.orphaned_crash (hb : Tenancy c b) (htended : b.Tended c)
    (hi : (b.standing i).Holds) {entry : KeyStore.Entry} (hentry : b.slot? c.key = some entry) :
    (b.crash c (c.attempts i).host).Orphaned c entry := by
  intro _
  cases hb.crash htended (c.attempts i).host with
  | vacant hnone hrenewals => exact ⟨hnone, hrenewals, hentry⟩
  | @taken j _ _ _ _ _ hupkeep =>
    obtain ⟨hne, hj⟩ := Board.holds_crash hupkeep.holds
    cases hb with
    | vacant hnone => exact absurd hi (hnone i)
    | taken honly => exact absurd (by rw [honly i hi, honly j hj]) hne

theorem Move.orphaned {entry : KeyStore.Entry} (hb : b.Orphaned c entry) (h : Move c b e b') :
    b'.Orphaned c entry := by
  intro hopen
  cases h with
  | began | other => exact hb hopen
  | acquired _ hfree | unheard _ hfree =>
    obtain ⟨-, -, hentry⟩ := hb hopen
    exact absurd ⟨entry, hentry, hopen⟩ hfree
  | denied =>
    obtain ⟨hnone, hrest⟩ := hb hopen
    refine ⟨fun k hk ↦ ?_, hrest⟩
    rcases Board.holds_place hk with ⟨-, hgone⟩ | ⟨-, hk⟩
    · exact hgone
    · exact hnone k hk
  | @renewing j hst | @stopping j hst | @released j hst | @abandoned j hst =>
    refine absurd ?_ ((hb hopen).1 j)
    rw [hst]
    trivial
  | extended hr =>
    rw [(hb hopen).2.1] at hr
    simp at hr
  | crashed host =>
    obtain ⟨hnone, hrenewals, hentry⟩ := hb hopen
    exact ⟨fun k hk ↦ hnone k (Board.holds_crash hk).2, by simp [Board.crash, hrenewals], hentry⟩
  | passed millis => exact hb (Nat.lt_of_le_of_lt (Nat.le_add_right ..) hopen)
  | elsewhere hkey =>
    obtain ⟨hnone, hrenewals, hentry⟩ := hb hopen
    exact ⟨hnone, hrenewals, hkey.trans hentry⟩

theorem orphaned_of_run (ho : Orderly c s) (hquiet : ∀ i, Quiet c.key (c.attempts i).work)
    {entry : KeyStore.Entry} (hs : s.board.Orphaned c entry) (hrun : Run (Step c) s events t) :
    Orderly c t ∧ t.board.Orphaned c entry := by
  induction hrun with
  | nil => exact ⟨ho, hs⟩
  | snoc _ hstep ih => exact ⟨ih.1.step hquiet hstep, (ih.1.move hstep).orphaned ih.2⟩

theorem Orderly.holds_of_asked (ho : Orderly c s) {r : Request} {a : r.Answer}
    (hstep : Step c s (.asked i ⟨r, a⟩) t) (hr : ¬IsPrompt c.key r) :
    (s.board.standing i).Holds := by
  cases hstep with
  | @asked i p q r a b hstage hstep hanswer =>
    have hallows := ((ho.meets hstage).step hstep).1
    cases hst : s.board.standing i with
    | granted | kept | leaving => trivial
    | outside =>
      rw [hst] at hallows
      obtain rfl := hallows
      exact absurd (.inl rfl) hr
    | gone =>
      rw [hst] at hallows
      exact absurd (.inr hallows) hr

/-- Where store commands succeed and nothing is put off, at most one run holds the lock of a job,
its key is set as long as it does, a run works only while it holds the lock, and nobody gets the
lock of an instance that has crashed before the end of its key. -/
theorem one_run_at_a_time (httl : ∀ i, 2 ≤ (c.attempts i).ttl)
    (hquiet : ∀ i, Quiet c.key (c.attempts i).work)
    (hrun : Run (PunctualStep c) (Scene.start now keys) events s) :
    (∀ i j, (s.board.standing i).Holds → (s.board.standing j).Holds → i = j) ∧
    (∀ i, (s.board.standing i).Holds →
      s.board.keys.value? s.board.now c.key = some (c.attempts i).owner) ∧
    (∀ i r answer t, PunctualStep c s (.asked i ⟨r, answer⟩) t → ¬IsPrompt c.key r →
      (s.board.standing i).Holds) ∧
    ∀ i entry s' future t t' j, (s.board.standing i).Holds → s.board.slot? c.key = some entry →
      PunctualStep c s (.crashed (c.attempts i).host) s' → Run (PunctualStep c) s' future t →
      PunctualStep c t (.asked j ⟨.setKey c.key (c.attempts j).owner (c.attempts j).ttl, .ok true⟩)
        t' → entry.expiry ≤ t.board.now := by
  have hplain := PunctualStep.run hrun
  have horderly := Orderly.of_run hplain hquiet
  have htenancy := tenancy_of_run hquiet httl hrun
  refine ⟨fun i j hi hj ↦ ?_, fun i hi ↦ ?_, fun i r answer t hstep hr ↦ ?_, ?_⟩
  · cases htenancy with
    | vacant hnone => exact absurd hi (hnone i)
    | taken honly => exact (honly i hi).trans (honly j hj).symm
  · cases htenancy with
    | vacant hnone => exact absurd hi (hnone i)
    | taken honly hentry hvalue hopen =>
      rw [honly i hi, ← hvalue]
      exact Board.value?_eq_some hentry hopen
  · exact horderly.holds_of_asked hstep.1 hr
  · intro i entry s' future t t' j hi hentry hcrash hfuture hacquired
    have horphaned : s'.board.Orphaned c entry := by
      rw [(horderly.move hcrash.1).eq_crash]
      exact htenancy.orphaned_crash (tended_of_run hquiet hplain) hi hentry
    obtain ⟨ht, horphaned⟩ := orphaned_of_run (horderly.step hquiet hcrash.1) hquiet horphaned
      (PunctualStep.run hfuture)
    refine Nat.le_of_not_lt fun hopen ↦ ?_
    exact (ht.move hacquired.1).not_isSet_of_acquired ⟨entry, (horphaned hopen).2.2, hopen⟩

/-- Every run is on an instance of its own, works for 200 milliseconds, and has the lock for 60. -/
def sleepyScene : Scene where
  job := "sync"
  attempts i := { host := i, owner := toString i, ttl := 60, work := Simulation.timedWork 200 none }

theorem quiet_timedWork {key : String} (duration : ℕ) (failure : Option Failure) :
    Quiet key (Simulation.timedWork duration failure) := by
  refine Program.asks_bind ⟨by simp [Request.lockKey?], fun _ ↦ trivial⟩ fun _ ↦ ?_
  cases failure <;> trivial

/-- When half of the time of its key has passed, the key of a run that works is still its own. -/
theorem lock_is_kept_while_a_long_run_works :
    ∃ events s, Run (PunctualStep sleepyScene) (Scene.start 0 .empty) events s ∧
      s.board.now = 30 ∧ (s.board.standing 0).Holds ∧
      s.board.keys.value? s.board.now sleepyScene.key = some "0" ∧
      ∀ j, (s.board.standing j).Holds → j = 0 := by
  have h₁ := (@Run.nil _ _ (PunctualStep sleepyScene) (Scene.start 0 .empty)).snoc
    ⟨.began (i := 0) rfl, trivial⟩
  have h₂ := h₁.snoc ⟨.asked (i := 0) rfl (.ask _ _) (.told (.set rfl)), fun _ f h ↦ by cases h⟩
  have h₃ := h₂.snoc ⟨.asked (i := 0) rfl (.ask _ _) (.told (.startRenewal 60)),
    fun _ f h ↦ by cases h⟩
  have h₄ := h₃.snoc ⟨.asked (i := 0) rfl (.ask _ _)
    (.other (r := .count (.jobRuns "sync")) (by decide) ()), fun _ f h ↦ by cases h⟩
  have h₅ := h₄.snoc
    ⟨.passed 30, List.forall_mem_singleton.mpr (by decide), fun i p hp r a q hq ↦ by
      match i with
      | 0 =>
        cases Stage.running.inj hp
        cases (hq : (Program.ask (.pause 200) _).Step r a q)
        exact fun h ↦ by simp [IsPrompt, Request.lockKey?, Request.IsNote, Request.kind] at h
      | i + 1 => cases hp⟩
  have hall := one_run_at_a_time (c := sleepyScene) (fun _ ↦ (by decide : 2 ≤ 60))
    (fun _ ↦ quiet_timedWork 200 none) h₅
  exact ⟨_, _, h₅, rfl, trivial, hall.2.1 0 trivial, fun j hj ↦ hall.1 j 0 hj trivial⟩

end NodeInventory.Lock
