import NodeInventory.Proofs.Settings.Pairs

/-!
# Acceptance of settings

Settings are read from pairs and are then looked at on their own. Both succeed for just those pairs
that are *acceptable* (`Acceptable`): every variable is given at most once and with a text that
suits it, the variables without default are given, and what the program cannot run with is not.

The settings are those that the pairs make (`MadeOf`): each variable has the value that its text
spells, or its default if no text was given. Since this depends on nothing but the texts given for
each variable, neither the order of the pairs matters nor what stands under unknown names.
-/

namespace NodeInventory.Settings

open Text

variable {pairs pairs' : List (String × String)} {s : Settings} {l : List Assignment}

/-! ## The fields of settings -/

/-- The text that settings have for a variable, if any. -/
def text (s : Settings) : TextVariable → Option String
  | .logFilter => some s.logFilter
  | .podName => some s.podName
  | .redisUrl => some s.redisUrl
  | .fleetEndpoint => some s.fleetEndpoint
  | .clusterId => s.clusterId
  | .queueName => some s.queueName

/-- The number that settings have for a variable. -/
def count (s : Settings) : CountVariable → ℕ
  | .rpcTimeoutMillis => s.rpcTimeoutMillis
  | .workerCount => s.workerCount
  | .nodePageSize => s.nodePageSize
  | .recordPageSize => s.recordPageSize
  | .lockTtlSeconds => s.lockTtlSeconds
  | .syncPeriodSeconds => s.syncPeriodSeconds
  | .gcPeriodSeconds => s.gcPeriodSeconds
  | .heartbeatPeriodSeconds => s.heartbeatPeriodSeconds
  | .retryAttempts => s.retryAttempts
  | .retryDelayMillis => s.retryDelayMillis
  | .metricsPort => s.metricsPort

/-- What stands for a text that is not given. Some texts have to be given, and the identity of the
cluster may be left open. -/
def TextVariable.default : TextVariable → Option (Option String)
  | logFilter | podName | redisUrl | fleetEndpoint => none
  | clusterId => some none
  | queueName => some (some "task_queue")

/-- What stands for a number that is not given. -/
def CountVariable.default : CountVariable → ℕ
  | rpcTimeoutMillis => 1000
  | workerCount => 3
  | nodePageSize => 50
  | recordPageSize => 50
  | lockTtlSeconds => 60
  | syncPeriodSeconds => 30
  | gcPeriodSeconds => 40
  | heartbeatPeriodSeconds => 60
  | retryAttempts => 3
  | retryDelayMillis => 1000
  | metricsPort => 9090

/-- The degree of parallelism if none is given. -/
def defaultParallelism : ℤ := 3

/-- The resources that are tracked if none are given. -/
def defaultTrackedResources : List String := ["cpu", "memory", "nvidia.com/gpu"]

/-- The variables that have to be given, in the order in which they are missed. -/
def necessary : List TextVariable := [.logFilter, .podName, .redisUrl, .fleetEndpoint]

/-- The variables that may not be zero. -/
def nonzero : List CountVariable :=
  [.workerCount, .nodePageSize, .recordPageSize, .lockTtlSeconds, .syncPeriodSeconds,
    .gcPeriodSeconds, .heartbeatPeriodSeconds, .retryAttempts]

theorem default_eq_none_iff {v : TextVariable} : v.default = none ↔ v ∈ necessary := by
  cases v <;> simp [TextVariable.default, necessary]

theorem default_pos {v : CountVariable} (h : v ∈ nonzero) : 0 < v.default := by
  revert h
  cases v <;> decide

/-! ## Values -/

/-- A value is the one that a text means if this is the only text, and the default if there is
none. -/
def Held {α : Type} (texts : List String) (means : String → α → Prop) (default : Option α)
    (a : α) : Prop :=
  (∃ t, texts = [t] ∧ means t a) ∨ texts = [] ∧ default = some a

theorem Held.perm {α : Type} {texts texts' : List String} {means : String → α → Prop}
    {default : Option α} {a : α} (hperm : texts.Perm texts') (h : Held texts means default a) :
    Held texts' means default a := by
  obtain ⟨t, rfl, hmeans⟩ | ⟨rfl, hdefault⟩ := h
  · exact .inl ⟨t, List.singleton_perm.mp hperm |>.symm, hmeans⟩
  · exact .inr ⟨hperm.nil_eq.symm, hdefault⟩

/-- The settings that pairs make. -/
structure MadeOf (pairs : List (String × String)) (s : Settings) : Prop where
  text : ∀ v, Held (given pairs (.text v)) (fun t a ↦ a = some t) v.default (s.text v)
  count : ∀ v, Held (given pairs (.count v)) (SpellsNat v.limit) (some v.default) (s.count v)
  parallelism : Held (given pairs .parallelism) (SpellsInt parallelismLimit)
    (some defaultParallelism) s.parallelism
  trackedResources : Held (given pairs .trackedResources) (fun t r ↦ r = splitList t)
    (some defaultTrackedResources) s.trackedResources

/-- Settings with which the program can run. -/
structure Usable (s : Settings) : Prop where
  nonzero : ∀ v ∈ nonzero, 0 < s.count v
  tracked : s.trackedResources ≠ []

/-- Pairs that make settings with which the program can run. -/
structure Acceptable (pairs : List (String × String)) : Prop where
  once : ∀ v, (given pairs v).length ≤ 1
  suited : ∀ v, ∀ t ∈ given pairs v, v.Suits t
  complete : ∀ v ∈ necessary, given pairs (.text v) ≠ []
  nonzero : ∀ v ∈ nonzero, ∀ t ∈ given pairs (.count v), ¬SpellsNat v.limit t 0
  tracked : "" ∉ given pairs .trackedResources

/-! ## Looking up what was given -/

theorem filter_assignments (pairs : List (String × String)) (v : Variable) :
    (assignments pairs).filter (·.variable == v) =
      (given pairs v).filterMap fun t ↦ (v.read t).toOption := by
  induction pairs using List.reverseRecOn with
  | nil => rfl
  | append_singleton pairs p ih =>
    rw [assignments_snoc, given_append, List.filter_append, List.filterMap_append, ih]
    congr 1
    cases h : assignment? p with
    | none =>
      by_cases hname : lowerName p.1 = v.name
      · rw [given_singleton_self hname]
        cases hread : v.read p.2 with
        | error e => simp [Except.toOption, hread]
        | ok a => rw [assignment?_eq_some_iff.mpr ⟨v, hname, hread⟩] at h; cases h
      · rw [given_singleton_ne hname]
        rfl
    | some a =>
      obtain ⟨w, hname, hread⟩ := assignment?_eq_some_iff.mp h
      by_cases hwv : w = v
      · subst hwv
        simp [given_singleton_self hname, hread, Except.toOption, Variable.variable_of_read hread]
      · have hne : lowerName p.1 ≠ v.name := fun hv ↦
          hwv (Variable.name_injective (hname.symm.trans hv))
        simp [given_singleton_ne hne, Variable.variable_of_read hread, hwv]

theorem text?_filter (v : TextVariable) (l : List Assignment) :
    text? v (l.filter (·.variable == .text v)) = text? v l := by
  induction l with
  | nil => rfl
  | cons a l ih =>
    cases a with
    | text w t =>
      by_cases hw : w = v
      · simp [Assignment.variable, text?, hw]
      · rw [List.filter_cons_of_neg (by simpa [Assignment.variable] using hw), ih, text?,
          if_neg hw]
    | _ => simpa [Assignment.variable, text?] using ih

theorem count?_filter (v : CountVariable) (l : List Assignment) :
    count? v (l.filter (·.variable == .count v)) = count? v l := by
  induction l with
  | nil => rfl
  | cons a l ih =>
    cases a with
    | count w n =>
      by_cases hw : w = v
      · simp [Assignment.variable, count?, hw]
      · rw [List.filter_cons_of_neg (by simpa [Assignment.variable] using hw), ih, count?,
          if_neg hw]
    | _ => simpa [Assignment.variable, count?] using ih

theorem parallelism?_filter (l : List Assignment) :
    parallelism? (l.filter (·.variable == .parallelism)) = parallelism? l := by
  induction l with
  | nil => rfl
  | cons a l ih =>
    cases a with
    | parallelism n => simp [Assignment.variable, parallelism?]
    | _ => simpa [Assignment.variable, parallelism?] using ih

theorem trackedResources?_filter (l : List Assignment) :
    trackedResources? (l.filter (·.variable == .trackedResources)) = trackedResources? l := by
  induction l with
  | nil => rfl
  | cons a l ih =>
    cases a with
    | trackedResources r => simp [Assignment.variable, trackedResources?]
    | _ => simpa [Assignment.variable, trackedResources?] using ih

/-! ## Making settings -/

/-- The assignments have values for the settings, where they do not leave them to the default. -/
structure Fits (l : List Assignment) (s : Settings) : Prop where
  text : ∀ v, ((text? v l).map some).or v.default = some (s.text v)
  count : ∀ v, (count? v l).or (some v.default) = some (s.count v)
  parallelism : (parallelism? l).or (some defaultParallelism) = some s.parallelism
  trackedResources : (trackedResources? l).or (some defaultTrackedResources) =
    some s.trackedResources

theorem Fits.unique {s s' : Settings} (h : Fits l s) (h' : Fits l s') : s = s' := by
  have htext (v) : s.text v = s'.text v := Option.some.inj ((h.text v).symm.trans (h'.text v))
  have hcount (v) : s.count v = s'.count v := Option.some.inj ((h.count v).symm.trans (h'.count v))
  have hparallelism := Option.some.inj (h.parallelism.symm.trans h'.parallelism)
  have htracked := Option.some.inj (h.trackedResources.symm.trans h'.trackedResources)
  cases s
  cases s'
  congr
  · exact Option.some.inj (htext .logFilter)
  · exact Option.some.inj (htext .podName)
  · exact Option.some.inj (htext .redisUrl)
  · exact Option.some.inj (htext .fleetEndpoint)
  · exact hcount .rpcTimeoutMillis
  · exact htext .clusterId
  · exact Option.some.inj (htext .queueName)
  · exact hcount .workerCount
  · exact hcount .nodePageSize
  · exact hcount .recordPageSize
  · exact hcount .lockTtlSeconds
  · exact hcount .syncPeriodSeconds
  · exact hcount .gcPeriodSeconds
  · exact hcount .heartbeatPeriodSeconds
  · exact hcount .retryAttempts
  · exact hcount .retryDelayMillis
  · exact hcount .metricsPort

/-- The failure of a variable that has to be given and is not. -/
def missingFault (v : TextVariable) : Failure := .plain ("missing value for field " ++ v.name)

theorem required_eq_ok_iff {v : TextVariable} {t : String} :
    required v l = .ok t ↔ text? v l = some t := by
  unfold required
  cases text? v l <;> simp

theorem fits_of_ofAssignments (h : ofAssignments l = .ok s) : Fits l s := by
  obtain ⟨logFilter, hlogFilter, h⟩ := Result.bind_eq_ok_iff.mp h
  obtain ⟨podName, hpodName, h⟩ := Result.bind_eq_ok_iff.mp h
  obtain ⟨redisUrl, hredisUrl, h⟩ := Result.bind_eq_ok_iff.mp h
  obtain ⟨fleetEndpoint, hfleetEndpoint, h⟩ := Result.bind_eq_ok_iff.mp h
  cases h
  have hor {α : Type} (o : Option α) (a : α) : o.or (some a) = some (o.getD a) := by
    cases o <;> rfl
  refine ⟨fun v ↦ ?_, fun v ↦ ?_, hor _ _, hor _ _⟩
  · cases v with
    | logFilter => simp [text, required_eq_ok_iff.mp hlogFilter]
    | podName => simp [text, required_eq_ok_iff.mp hpodName]
    | redisUrl => simp [text, required_eq_ok_iff.mp hredisUrl]
    | fleetEndpoint => simp [text, required_eq_ok_iff.mp hfleetEndpoint]
    | clusterId =>
      simp only [text, TextVariable.default]
      cases text? .clusterId l <;> rfl
    | queueName =>
      simp only [text, TextVariable.default]
      cases text? .queueName l <;> rfl
  · cases v <;> exact hor _ _

/-- Settings come out of assignments, unless a variable is missed; then this is told of the first
one. -/
theorem ofAssignments_cases (l : List Assignment) :
    (necessary.find? (fun v ↦ (text? v l).isNone) = none ∧ ∃ s, ofAssignments l = .ok s) ∨
      ∃ v, necessary.find? (fun v ↦ (text? v l).isNone) = some v ∧
        ofAssignments l = .error (missingFault v) := by
  unfold ofAssignments required necessary
  cases hlogFilter : text? .logFilter l with
  | none => exact .inr ⟨.logFilter, by simp [hlogFilter], rfl⟩
  | some t₁ =>
    cases hpodName : text? .podName l with
    | none => exact .inr ⟨.podName, by simp [hlogFilter, hpodName], rfl⟩
    | some t₂ =>
      cases hredisUrl : text? .redisUrl l with
      | none => exact .inr ⟨.redisUrl, by simp [hlogFilter, hpodName, hredisUrl], rfl⟩
      | some t₃ =>
        cases hfleetEndpoint : text? .fleetEndpoint l with
        | none =>
          exact .inr ⟨.fleetEndpoint,
            by simp [hlogFilter, hpodName, hredisUrl, hfleetEndpoint], rfl⟩
        | some t₄ =>
          exact .inl ⟨by simp [hlogFilter, hpodName, hredisUrl, hfleetEndpoint], _, rfl⟩

theorem ofAssignments_eq_ok_iff : ofAssignments l = .ok s ↔ Fits l s := by
  refine ⟨fits_of_ofAssignments, fun h ↦ ?_⟩
  obtain ⟨-, s', hs'⟩ | ⟨v, hv, -⟩ := ofAssignments_cases l
  · rw [hs', (fits_of_ofAssignments hs').unique h]
  · have hmissing := List.find?_some hv
    have htext := h.text v
    rw [Option.isNone_iff_eq_none.mp hmissing,
      default_eq_none_iff.mpr (List.mem_of_find?_eq_some hv)] at htext
    cases htext

/-! ## Settings from pairs -/

theorem text?_assignments (pairs : List (String × String)) (v : TextVariable) :
    text? v (assignments pairs) = (given pairs (.text v)).head? := by
  rw [← text?_filter, filter_assignments]
  cases given pairs (.text v) with
  | nil => rfl
  | cons t ts => simp [Variable.read, Except.toOption, text?]

/-- What is looked up stands for what is held, if at most one text is given and what it means is
found. -/
theorem held_iff {α : Type} {texts : List String} {means : String → α → Prop} {default : Option α}
    {found : Option α} {a : α} (hlength : texts.length ≤ 1) (hnone : texts = [] → found = none)
    (hsome : ∀ t, texts = [t] → ∃ b, found = some b ∧ ∀ a, means t a ↔ b = a) :
    Held texts means default a ↔ found.or default = some a := by
  unfold Held
  match texts, hlength with
  | [], _ => simp [hnone rfl]
  | [t], _ =>
    obtain ⟨b, rfl, hmeans⟩ := hsome t rfl
    simp [hmeans]

theorem fits_assignments_iff (h : Taken pairs) : Fits (assignments pairs) s ↔ MadeOf pairs s := by
  have hlength (v : Variable) := (taken_iff.mp h v).1
  have hsuits {v : Variable} {t : String} (ht : given pairs v = [t]) : v.Suits t :=
    (taken_iff.mp h v).2 t (ht ▸ List.mem_singleton_self t)
  have htext (v : TextVariable) : Held (given pairs (.text v)) (fun t a ↦ a = some t) v.default
      (s.text v) ↔ ((text? v (assignments pairs)).map some).or v.default = some (s.text v) := by
    refine held_iff (hlength _) (fun hnone ↦ ?_) (fun t ht ↦ ⟨some t, ?_, fun a ↦ eq_comm⟩)
    · rw [text?_assignments, hnone]
      rfl
    · rw [text?_assignments, ht]
      rfl
  have hcount (v : CountVariable) : Held (given pairs (.count v)) (SpellsNat v.limit)
      (some v.default) (s.count v) ↔
        (count? v (assignments pairs)).or (some v.default) = some (s.count v) := by
    refine held_iff (hlength _) (fun hnone ↦ ?_) (fun t ht ↦ ?_)
    · rw [← count?_filter, filter_assignments, hnone]
      rfl
    · obtain ⟨n, hn⟩ := hsuits ht
      rw [← readNat_eq_ok_iff] at hn
      refine ⟨n, ?_, fun a ↦ ?_⟩
      · rw [← count?_filter, filter_assignments, ht]
        simp [Variable.read, hn, Except.map, Except.toOption, count?]
      · rw [← readNat_eq_ok_iff, hn, Except.ok.injEq]
  have hparallelism : Held (given pairs .parallelism) (SpellsInt parallelismLimit)
      (some defaultParallelism) s.parallelism ↔
        (parallelism? (assignments pairs)).or (some defaultParallelism) = some s.parallelism := by
    refine held_iff (hlength _) (fun hnone ↦ ?_) (fun t ht ↦ ?_)
    · rw [← parallelism?_filter, filter_assignments, hnone]
      rfl
    · obtain ⟨n, hn⟩ := hsuits ht
      have hread {n : ℤ} : SpellsInt parallelismLimit t n ↔ readInt parallelismLimit t = .ok n :=
        readInt_eq_ok_iff.symm
      rw [hread] at hn
      refine ⟨n, ?_, fun a ↦ ?_⟩
      · rw [← parallelism?_filter, filter_assignments, ht]
        simp [Variable.read, hn, Except.map, Except.toOption, parallelism?]
      · rw [hread, hn, Except.ok.injEq]
  have htracked : Held (given pairs .trackedResources) (fun t r ↦ r = splitList t)
      (some defaultTrackedResources) s.trackedResources ↔
        (trackedResources? (assignments pairs)).or (some defaultTrackedResources) =
          some s.trackedResources := by
    refine held_iff (hlength _) (fun hnone ↦ ?_) (fun t ht ↦ ⟨splitList t, ?_, fun a ↦ eq_comm⟩)
    · rw [← trackedResources?_filter, filter_assignments, hnone]
      rfl
    · rw [← trackedResources?_filter, filter_assignments, ht]
      rfl
  exact ⟨fun h ↦ ⟨fun v ↦ (htext v).mpr (h.text v), fun v ↦ (hcount v).mpr (h.count v),
      hparallelism.mpr h.parallelism, htracked.mpr h.trackedResources⟩,
    fun h ↦ ⟨fun v ↦ (htext v).mp (h.text v), fun v ↦ (hcount v).mp (h.count v),
      hparallelism.mp h.parallelism, htracked.mp h.trackedResources⟩⟩

theorem Held.length_le {α : Type} {texts : List String} {means : String → α → Prop}
    {default : Option α} {a : α} (h : Held texts means default a) : texts.length ≤ 1 := by
  obtain ⟨t, rfl, -⟩ | ⟨rfl, -⟩ := h
  · exact le_refl 1
  · exact Nat.zero_le 1

theorem Held.means {α : Type} {texts : List String} {means : String → α → Prop}
    {default : Option α} {a : α} {t : String} (h : Held texts means default a) (ht : t ∈ texts) :
    means t a := by
  obtain ⟨t', rfl, hmeans⟩ | ⟨rfl, -⟩ := h
  · exact List.mem_singleton.mp ht ▸ hmeans
  · cases ht

theorem MadeOf.taken (h : MadeOf pairs s) : Taken pairs := by
  refine taken_iff.mpr fun v ↦ ?_
  cases v with
  | text v => exact ⟨(h.text v).length_le, fun t _ ↦ trivial⟩
  | count v => exact ⟨(h.count v).length_le, fun t ht ↦ ⟨_, (h.count v).means ht⟩⟩
  | parallelism => exact ⟨h.parallelism.length_le, fun t ht ↦ ⟨_, h.parallelism.means ht⟩⟩
  | trackedResources => exact ⟨h.trackedResources.length_le, fun t _ ↦ trivial⟩

theorem ofPairs_eq_ok_iff : ofPairs pairs = .ok s ↔ MadeOf pairs s := by
  refine Result.bind_eq_ok_iff.trans ⟨?_, fun h ↦ ?_⟩
  · rintro ⟨l, hl, h⟩
    obtain ⟨htaken, rfl⟩ := readPairs_eq_ok_iff.mp hl
    exact (fits_assignments_iff htaken).mp (ofAssignments_eq_ok_iff.mp h)
  · exact ⟨assignments pairs, readPairs_of_taken h.taken,
      ofAssignments_eq_ok_iff.mpr ((fits_assignments_iff h.taken).mpr h)⟩

/-- The failure to read settings is that of the first pair that offends. A variable is missed only
if none does. -/
theorem ofPairs_eq_error_iff {f : Failure} :
    ofPairs pairs = .error f ↔
      (∃ before p after, pairs = before ++ p :: after ∧ Taken before ∧ Offends before p f) ∨
        Taken pairs ∧ ∃ v, necessary.find? (fun v ↦ given pairs (.text v) = []) = some v ∧
          f = missingFault v := by
  have hfind : necessary.find? (fun v ↦ given pairs (.text v) = []) =
      necessary.find? fun v ↦ (text? v (assignments pairs)).isNone := by
    congr
    funext v
    rw [text?_assignments]
    cases given pairs (.text v) <;> rfl
  have hsplit : ofPairs pairs = .error f ↔ readPairs pairs [] = .error f ∨
      Taken pairs ∧ ofAssignments (assignments pairs) = .error f := by
    unfold ofPairs
    obtain htaken | ⟨before, p, after, g, hpairs, hbefore, hp⟩ := taken_or_exists_offends pairs
    · rw [readPairs_of_taken htaken]
      exact ⟨fun h ↦ .inr ⟨htaken, h⟩, fun h ↦ h.resolve_left nofun |>.2⟩
    · rw [readPairs_eq_error_iff.mpr ⟨before, p, after, hpairs, hbefore, hp⟩]
      refine ⟨fun h ↦ .inl (Except.error.inj h ▸ rfl), fun h ↦ ?_⟩
      exact Except.error.inj (h.resolve_right fun h ↦ h.1 before p after hpairs g hp) ▸ rfl
  rw [hsplit, readPairs_eq_error_iff, hfind]
  refine or_congr_right (and_congr_right fun _ ↦ ?_)
  obtain ⟨hnone, s, hs⟩ | ⟨v, hv, herror⟩ := ofAssignments_cases (assignments pairs)
  · rw [hnone, hs]
    exact iff_of_false nofun (by rintro ⟨v, ⟨⟩, -⟩)
  · rw [hv, herror]
    simp [eq_comm]

/-! ## Settings that can be used -/

/-- The settings of pairs, if the program can run with them. -/
def accepted (pairs : List (String × String)) : Result Settings := do
  let s ← ofPairs pairs
  s.validated

theorem validated_eq_ok_iff {s s' : Settings} : s.validated = .ok s' ↔ Usable s ∧ s' = s := by
  have hpositives : s.positives.find? (·.2 == 0) = none ↔ ∀ v ∈ nonzero, 0 < s.count v := by
    simp [positives, nonzero, count, Nat.pos_iff_ne_zero]
  have htracked : s.trackedResources.isEmpty = false ↔ s.trackedResources ≠ [] := by simp
  unfold validated
  cases hfind : s.positives.find? (·.2 == 0) with
  | some p =>
    refine iff_of_false nofun fun h ↦ ?_
    rw [hpositives.mpr h.1.nonzero] at hfind
    cases hfind
  | none =>
    cases hempty : s.trackedResources.isEmpty with
    | true =>
      refine iff_of_false nofun fun h ↦ ?_
      rw [htracked.mpr h.1.tracked] at hempty
      cases hempty
    | false =>
      refine ⟨fun h ↦ ⟨⟨hpositives.mp hfind, htracked.mp hempty⟩, ?_⟩, fun h ↦ ?_⟩
      · exact (Except.ok.inj h).symm
      · exact congrArg Except.ok h.2.symm

theorem accepted_eq_ok_iff : accepted pairs = .ok s ↔ MadeOf pairs s ∧ Usable s := by
  refine Result.bind_eq_ok_iff.trans ⟨?_, fun ⟨h, husable⟩ ↦ ?_⟩
  · rintro ⟨s', hs', h⟩
    obtain ⟨husable, rfl⟩ := validated_eq_ok_iff.mp h
    exact ⟨ofPairs_eq_ok_iff.mp hs', husable⟩
  · exact ⟨s, ofPairs_eq_ok_iff.mpr h, validated_eq_ok_iff.mpr ⟨husable, rfl⟩⟩

theorem splitList_eq_nil_iff {t : String} : splitList t = [] ↔ t = "" := by
  unfold splitList
  split
  · next h => exact iff_of_true rfl h
  · next h =>
    refine iff_of_false (fun hsplit ↦ ?_) h
    exact pieces_ne_nil ',' t.toList (List.map_eq_nil_iff.mp hsplit)

theorem MadeOf.acceptable (h : MadeOf pairs s) (husable : Usable s) : Acceptable pairs where
  once v := (taken_iff.mp h.taken v).1
  suited v := (taken_iff.mp h.taken v).2
  complete v hv hnone := by
    obtain ⟨t, ht, -⟩ | ⟨-, hdefault⟩ := h.text v
    · rw [hnone] at ht
      cases ht
    · rw [default_eq_none_iff.mpr hv] at hdefault
      cases hdefault
  nonzero v hv t ht hzero := by
    have hcount := readNat_eq_ok_iff.mpr ((h.count v).means ht)
    rw [readNat_eq_ok_iff.mpr hzero] at hcount
    exact (husable.nonzero v hv).ne (Except.ok.inj hcount)
  tracked ht := husable.tracked
    ((h.trackedResources.means ht).trans (splitList_eq_nil_iff.mpr rfl))

theorem Acceptable.exists_madeOf (h : Acceptable pairs) : ∃ s, MadeOf pairs s ∧ Usable s := by
  have htaken : Taken pairs := taken_iff.mpr fun v ↦ ⟨h.once v, h.suited v⟩
  obtain ⟨s, hs⟩ : ∃ s, ofPairs pairs = .ok s := by
    cases hpairs : ofPairs pairs with
    | ok s => exact ⟨s, rfl⟩
    | error f =>
      obtain ⟨before, p, after, hsplit, -, hp⟩ | ⟨-, v, hv, -⟩ := ofPairs_eq_error_iff.mp hpairs
      · exact absurd hp (htaken before p after hsplit f)
      · have hmissing := List.find?_some hv
        exact absurd (of_decide_eq_true hmissing)
          (h.complete v (List.mem_of_find?_eq_some hv))
  have hmade := ofPairs_eq_ok_iff.mp hs
  refine ⟨s, hmade, fun v hv ↦ ?_, fun hnil ↦ ?_⟩
  · obtain ⟨t, ht, hspells⟩ | ⟨-, hdefault⟩ := hmade.count v
    · refine Nat.pos_of_ne_zero fun hzero ↦ ?_
      exact h.nonzero v hv t (ht ▸ List.mem_singleton_self t) (hzero ▸ hspells)
    · exact Option.some.inj hdefault ▸ default_pos hv
  · obtain ⟨t, ht, hsplit⟩ | ⟨-, hdefault⟩ := hmade.trackedResources
    · rw [hnil] at hsplit
      rw [splitList_eq_nil_iff.mp hsplit.symm] at ht
      exact h.tracked (ht ▸ List.mem_singleton_self "")
    · rw [hnil] at hdefault
      cases hdefault

/-! ## What does not matter -/

/-- The name of the pair is that of a variable. -/
def known (p : String × String) : Bool := (Variable.ofName? p.1).isSome

theorem given_filter_known (pairs : List (String × String)) (v : Variable) :
    given (pairs.filter known) v = given pairs v := by
  unfold given
  rw [List.filter_filter]
  congr 2
  funext p
  rw [Bool.and_eq_left_iff_imp.mpr fun h ↦ ?_]
  rw [known, Variable.ofName?_eq_some_iff.mpr (beq_iff_eq.mp h)]
  rfl

/-- The same settings are made of the same pairs in another order, with whatever else under unknown
names. -/
theorem MadeOf.perm (hperm : (pairs'.filter known).Perm (pairs.filter known))
    (h : MadeOf pairs' s) : MadeOf pairs s := by
  have hgiven (v : Variable) : (given pairs' v).Perm (given pairs v) := by
    rw [← given_filter_known pairs', ← given_filter_known pairs]
    exact (hperm.filter _).map _
  exact ⟨fun v ↦ (h.text v).perm (hgiven _), fun v ↦ (h.count v).perm (hgiven _),
    h.parallelism.perm (hgiven _), h.trackedResources.perm (hgiven _)⟩

theorem ofEnvironment_eq_ok_iff :
    ofEnvironment pairs = .ok s ↔ accepted (environment pairs) = .ok s := by
  unfold ofEnvironment accepted
  cases ofPairs (environment pairs) with
  | error f => exact iff_of_false nofun nofun
  | ok s' =>
    change Result.within _ s'.validated = _ ↔ s'.validated = _
    cases s'.validated with
    | error f => exact iff_of_false nofun nofun
    | ok s'' => exact Iff.rfl

/-- Settings are accepted from just those pairs that are acceptable, and they are the ones that the
pairs make. Neither the order of the pairs matters nor what stands under unknown names. If no
settings can be read, the failure is that of the first pair that offends, or else that of the first
variable that is missed. -/
theorem accepted_from_acceptable_pairs (pairs : List (String × String)) :
    ((∃ s, accepted pairs = .ok s) ↔ Acceptable pairs) ∧
      (∀ s, accepted pairs = .ok s ↔ MadeOf pairs s ∧ Usable s) ∧
      (∀ pairs', (pairs'.filter known).Perm (pairs.filter known) →
        ∀ s, accepted pairs' = .ok s ↔ accepted pairs = .ok s) ∧
      ∀ f, ofPairs pairs = .error f ↔
        (∃ before p after, pairs = before ++ p :: after ∧ Taken before ∧ Offends before p f) ∨
          Taken pairs ∧ ∃ v, necessary.find? (fun v ↦ given pairs (.text v) = []) = some v ∧
            f = missingFault v := by
  refine ⟨⟨?_, fun h ↦ ?_⟩, fun s ↦ accepted_eq_ok_iff, fun pairs' hperm s ↦ ?_,
    fun f ↦ ofPairs_eq_error_iff⟩
  · rintro ⟨s, hs⟩
    obtain ⟨hmade, husable⟩ := accepted_eq_ok_iff.mp hs
    exact hmade.acceptable husable
  · obtain ⟨s, hs⟩ := h.exists_madeOf
    exact ⟨s, accepted_eq_ok_iff.mpr hs⟩
  · rw [accepted_eq_ok_iff, accepted_eq_ok_iff]
    exact and_congr_left fun _ ↦ ⟨.perm hperm, .perm hperm.symm⟩

/-- Names in mixed case, a number after a plus sign, and a name that is unknown. -/
def mixedPairs : List (String × String) :=
  [("RUST_LOG", "info"), ("Pod_Name", "inventory-0"), ("redis_url", "redis://queue"),
    ("FLEET_ENDPOINT", "fleet:443"), ("Worker_Count", "+7"), ("TRACKED_RESOURCES", "cpu,memory"),
    ("HOME", "/")]

/-- The settings of those pairs come out of the pairs in another order too. -/
theorem accepted_from_reversed_pairs :
    (mixedPairs.reverse.filter known).Perm (mixedPairs.filter known) ∧
      ∃ s, accepted mixedPairs.reverse = .ok s ∧ s.workerCount = 7 ∧ s.metricsPort = 9090 ∧
        s.trackedResources = ["cpu", "memory"] := by
  have hperm : (mixedPairs.reverse.filter known).Perm (mixedPairs.filter known) :=
    mixedPairs.reverse_perm.filter known
  refine ⟨hperm, ?_⟩
  obtain ⟨s, hs, hfields⟩ : ∃ s, accepted mixedPairs = .ok s ∧ s.workerCount = 7 ∧
      s.metricsPort = 9090 ∧ s.trackedResources = ["cpu", "memory"] := ⟨_, rfl, rfl, rfl, rfl⟩
  exact ⟨s, ((accepted_from_acceptable_pairs mixedPairs).2.2.1 _ hperm s).mpr hs, hfields⟩

end NodeInventory.Settings
